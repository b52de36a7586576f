import FuzzyInference.Proofs.Formula.Guarded
import FuzzyInference.Proofs.Logic.Aggregate
import FuzzyInference.Proofs.Logic.Outcome
import FuzzyInference.Proofs.Scalar.Order

/-!
# Missing data in formulas

Signs, operations and functions hand a propagating sentinel on, whichever operand
it is, as long as no other operand is to be ignored. Formulas make no sentinels
of their own, so where the data has none that is to be ignored and nothing asks
whether data is missing, a formula with a missing name is missing.

Choosing the smallest or the largest of several values is different: there the
sentinel competes as an infinite number. It wins against every finite number,
but an infinity in front of it ties and stays, and so does an undefined number,
which nothing is compared with.

Results:

* `madeFrom_apply`: calls make numbers or hand on an operand.
* `sentinel_of_evaluate`: the sentinels of formulas are those of their names.
* `apply_propagating`: what calls make of missing operands.
* `evaluate_propagates`: the value of a whole formula with a missing name.
* `evaluate_least_infinity`: a formula with a missing name can be a number.
-/

namespace FuzzyInference

variable {α : Type}

/-! ## Operations on missing values -/

namespace Value

/-- A value is not a sentinel that gives way. -/
def Heeded (v : Value α) : Prop := ∀ s, v = .sentinel s → s.ignore = false

variable {ε : Type} {u v w : Value α} {vs : List (Value α)}

theorem heeded_number (x : α) : (number x).Heeded := nofun

/-- A heeded value that stands for no number is the propagating sentinel. -/
theorem Heeded.eq_propagating (hv : v.Heeded) (h : v.resolve = none) :
    v = .sentinel .propagating := by
  rcases v with x | ⟨ignore, substitute⟩
  · cases h
  · cases hv _ rfl
    cases h
    rfl

/-- Missing data on either side of an operation is its value. -/
theorem binaryM_propagating {m : Type → Type} [Pure m] [Functor m] {op : α → α → m α}
    (hu : u.Heeded) (h : u = .sentinel .propagating ∨ v = .sentinel .propagating) :
    binaryM op u v = pure (.sentinel .propagating) := by
  rcases h with rfl | rfl
  · rfl
  · rcases u with x | ⟨ignore, _ | k⟩
    · rfl
    · cases hu _ rfl
      rfl
    · cases hu _ rfl
      rfl

theorem number_of_map_ok {r : Except ε α} (h : number <$> r = .ok w) : ∃ x, w = number x := by
  cases r with
  | error e => cases h
  | ok x =>
    cases h
    exact ⟨x, rfl⟩

theorem binaryM_cases {op : α → α → Except ε α} (h : binaryM op u v = .ok w) :
    (∃ x, w = number x) ∨ w = u ∨ w = v := by
  rcases u with a | ⟨_ | _, _ | k⟩ <;> rcases v with b | ⟨_ | _, _ | l⟩ <;>
    first
      | exact .inl (number_of_map_ok h)
      | exact .inl ⟨_, (Except.ok.inj h).symm⟩
      | exact .inr (.inl (Except.ok.inj h).symm)
      | exact .inr (.inr (Except.ok.inj h).symm)

theorem mapM_cases {op : α → Except ε α} (h : mapM op v = .ok w) : (∃ x, w = number x) ∨ w = v := by
  unfold mapM at h
  split at h
  · exact .inl (number_of_map_ok h)
  · cases h
    exact .inr rfl

theorem map_cases (op : α → α) (v : Value α) : (∃ x, map op v = number x) ∨ map op v = v := by
  unfold map mapM
  split
  · rename_i x _
    exact .inl ⟨op x, rfl⟩
  · exact .inr rfl

theorem settle_cases (v : Value α) : (∃ x, v.settle = number x) ∨ v.settle = v := map_cases id v

variable [Scalar α]

/-! ## Aggregations of missing values -/

theorem aggregate_propagating {op : AggregateOp} (hmem : .sentinel .propagating ∈ vs)
    (h : op.apply vs = .ok w) : w = .sentinel .propagating :=
  Except.ok.inj (h.symm.trans (AggregateOp.apply_missing op (AggregateOp.two_le_length h) hmem))

theorem gammaMean_propagating {gamma : Value α} (hgamma : gamma.Heeded)
    (hmem : .sentinel .propagating ∈ gamma :: vs) (h : gammaMean gamma vs = .ok w) :
    w = .sentinel .propagating := by
  rcases gammaMean_eq_ok.1 h with ⟨hnone, rfl⟩ | ⟨g, sum, product, hg, -, hsum, -, rfl⟩
  · exact hgamma.eq_propagating hnone
  · have hne : .sentinel .propagating ≠ gamma := by
      rintro rfl
      cases hg
    have hmem := (List.mem_cons.1 hmem).resolve_left hne
    cases aggregate_propagating hmem hsum
    rfl

/-! ## Choices among missing values -/

omit [Scalar α] in
/-- A value that beats the other ones of a list wherever it stands is the best
    one. -/
theorem best_eq {key : Value α → α} {better : α → α → Bool} {c : Value α} (hmem : c ∈ v :: vs)
    (hbeats : ∀ u ∈ v :: vs, u = c ∨ better (key c) (key u) = true ∧
      better (key u) (key c) = false) : best key better v vs = c := by
  induction vs generalizing v with
  | nil => exact (List.mem_singleton.1 hmem).symm
  | cons w vs ih =>
    rw [List.forall_mem_cons, List.forall_mem_cons] at hbeats
    obtain ⟨hv, hw, hvs⟩ := hbeats
    rw [best]
    refine ih ?_ ?_
    · rcases List.mem_cons.1 hmem with rfl | hmem
      · rcases hw with rfl | hw
        · rw [ite_self]
          exact List.mem_cons_self
        · rw [hw.2, if_neg Bool.false_ne_true]
          exact List.mem_cons_self
      · rcases List.mem_cons.1 hmem with rfl | hmem
        · rcases hv with rfl | hv
          · rw [ite_self]
            exact List.mem_cons_self
          · rw [hv.1, if_pos rfl]
            exact List.mem_cons_self
        · exact List.mem_cons_of_mem _ hmem
    · rw [List.forall_mem_cons]
      refine ⟨?_, hvs⟩
      split
      · exact hw
      · exact hv

theorem minKey_eq {x : α} (h : v.resolve = some x) : v.minKey = x := by
  rcases v with y | ⟨_ | _, _ | k⟩ <;> cases h <;> rfl

theorem maxKey_eq {x : α} (h : v.resolve = some x) : v.maxKey = x := by
  rcases v with y | ⟨_ | _, _ | k⟩ <;> cases h <;> rfl

omit [Scalar α] in
/-- Missing data is chosen if its key beats those of all numbers. -/
theorem best_propagating {key : Value α → α} {better : α → α → Bool}
    (hkey : ∀ {u x}, u.resolve = some x → key u = x) (hvs : ∀ u ∈ v :: vs, u.Heeded)
    (hmem : .sentinel .propagating ∈ v :: vs)
    (hbeats : ∀ u ∈ v :: vs, u.Holds fun x => better (key (.sentinel .propagating)) x = true ∧
      better x (key (.sentinel .propagating)) = false) :
    (best key better v vs).settle = .sentinel .propagating := by
  have hbest : best key better v vs = .sentinel .propagating := by
    refine best_eq hmem fun u hu => ?_
    cases hx : u.resolve with
    | none => exact .inl ((hvs u hu).eq_propagating hx)
    | some x =>
      rw [hkey hx]
      exact .inr (hbeats u hu x hx)
  rw [hbest]
  rfl

theorem minOf_propagating [OrderedNumbers α] (hvs : ∀ v ∈ vs, v.Heeded)
    (hmem : .sentinel .propagating ∈ vs)
    (hbound : ∀ v ∈ vs, v.Holds fun x => -Scalar.infinity < x) :
    minOf vs = some (.sentinel .propagating) := by
  cases vs with
  | nil => cases hmem
  | cons v vs =>
    exact congrArg some (best_propagating minKey_eq hvs hmem fun u hu x hx =>
      Scalar.decide_lt_of_lt (hbound u hu x hx))

theorem maxOf_propagating [OrderedNumbers α] (hvs : ∀ v ∈ vs, v.Heeded)
    (hmem : .sentinel .propagating ∈ vs) (hbound : ∀ v ∈ vs, v.Holds fun x => x < Scalar.infinity) :
    maxOf vs = some (.sentinel .propagating) := by
  cases vs with
  | nil => cases hmem
  | cons v vs =>
    exact congrArg some (best_propagating maxKey_eq hvs hmem fun u hu x hx =>
      Scalar.decide_lt_of_lt (hbound u hu x hx))

theorem madeFrom_chosen (h : minOf vs = some w ∨ maxOf vs = some w) : MadeFrom vs w := by
  obtain ⟨v, hv, rfl⟩ := exists_mem_of_chosen h
  refine (settle_cases v).imp_right fun hsettle => ?_
  rw [hsettle]
  exact hv

end Value

/-! ## Calls -/

namespace Function

variable [Scalar α] {fn : Function} {vs : List (Value α)} {w : Value α}

theorem madeFrom_applyFew (h : fn.applyFew vs = .ok w) : Value.MadeFrom vs w := by
  have hpair {op : α → α → Result α α} {u v : Value α} (h : Value.binaryM op u v = .ok w) :
      Value.MadeFrom [u, v] w :=
    (Value.binaryM_cases h).imp_right List.mem_pair.2
  unfold applyFew at h
  split at h
  · exact hpair h
  · exact hpair h
  · exact hpair h
  · cases h
    exact (Value.binary_cases _ _ _).imp_right List.mem_pair.2
  · exact (Value.mapM_cases h).imp_right List.mem_singleton.2
  · cases h

/-- A call makes a number or hands on one of its operands. -/
theorem madeFrom_apply (h : fn.apply vs = .ok w) : Value.MadeFrom vs w := by
  unfold apply at h
  split at h
  · exact Value.madeFrom_chosen (.inr (select_eq_ok h))
  · exact Value.madeFrom_chosen (.inl (select_eq_ok h))
  · exact Value.madeFrom_apply h
  · exact Value.madeFrom_apply h
  · split at h
    · cases h
    · exact Value.madeFrom_gammaMean h
  · split at h
    · rename_i value ifMissing rest
      cases h
      right
      split
      · simp
      · cases rest <;> simp
    · exact madeFrom_applyFew h
  · exact madeFrom_applyFew h

/-- A number does not keep a function from handing missing data on. Choices are the
    only ones that a number can keep from it. -/
def Yields : Function → α → Prop
  | .min, x => -Scalar.infinity < x
  | .max, x => x < Scalar.infinity
  | _, _ => True

theorem yields_of_isFinite [OrderedNumbers α] (fn : Function) {x : α}
    (h : Scalar.isFinite x = true) : fn.Yields x := by
  unfold Yields
  split
  · exact OrderedNumbers.negInfinity_lt h
  · exact OrderedNumbers.lt_infinity h
  · trivial

theorem applyFew_propagating (hvs : ∀ v ∈ vs, v.Heeded) (hmem : .sentinel .propagating ∈ vs)
    (h : fn.applyFew vs = .ok w) : w = .sentinel .propagating := by
  have hpair {op : α → α → Result α α} {u v : Value α} (huv : ∀ w ∈ [u, v], w.Heeded)
      (hmem : .sentinel .propagating ∈ [u, v]) (h : Value.binaryM op u v = .ok w) :
      w = .sentinel .propagating := by
    have hside := (List.mem_pair.1 hmem).imp Eq.symm Eq.symm
    rw [Value.binaryM_propagating (huv u List.mem_cons_self) hside] at h
    cases h
    rfl
  unfold applyFew at h
  split at h
  · exact hpair hvs hmem h
  · exact hpair hvs hmem h
  · exact hpair hvs hmem h
  · rw [← Value.binaryM_ok] at h
    exact hpair hvs hmem h
  · cases List.mem_singleton.1 hmem
    cases h
    rfl
  · cases h

/-- A call hands missing data on if its other operands leave it the choice. -/
theorem apply_propagating [OrderedNumbers α] (hfn : fn ≠ .checkNoData) (hvs : ∀ v ∈ vs, v.Heeded)
    (hmem : .sentinel .propagating ∈ vs) (hyields : ∀ v ∈ vs, v.Holds fn.Yields)
    (h : fn.apply vs = .ok w) : w = .sentinel .propagating := by
  unfold apply at h
  split at h
  · have hmax := select_eq_ok h
    rw [Value.maxOf_propagating hvs hmem hyields] at hmax
    cases hmax
    rfl
  · have hmin := select_eq_ok h
    rw [Value.minOf_propagating hvs hmem hyields] at hmin
    cases hmin
    rfl
  · exact Value.aggregate_propagating hmem h
  · exact Value.aggregate_propagating hmem h
  · split at h
    · cases h
    · rw [List.forall_mem_cons] at hvs
      exact Value.gammaMean_propagating hvs.1 hmem h
  · exact absurd rfl hfn
  · exact applyFew_propagating hvs hmem h

end Function

/-! ## Formulas -/

namespace Formula

variable [Scalar α] {env : String → Option (Value α)} {f g : Formula α}

/-- The sentinels that come out of a formula are those that went into it. -/
theorem sentinel_of_evaluate {s : Sentinel α} (h : f.evaluate env = .ok (.sentinel s)) :
    ∃ n ∈ f.mentions, env n = some (.sentinel s) := by
  induction f with
  | number value => cases h
  | name n =>
    rw [evaluate] at h
    split at h
    · rename_i v hv
      cases h
      exact ⟨n, List.mem_singleton.2 rfl, hv⟩
    · cases h
  | sign sign f ih =>
    rw [evaluate] at h
    obtain ⟨v, hv, h⟩ := bind_eq_ok.1 h
    have hsigned : signed sign v = .sentinel s := Except.ok.inj h
    cases sign with
    | plus => exact ih (hsigned ▸ hv)
    | minus =>
      rcases Value.map_cases (fun x => -x) v with ⟨x, hx⟩ | hmap
      · cases hx.symm.trans hsigned
      · exact ih (hmap.symm.trans hsigned ▸ hv)
  | binary op l r ihl ihr =>
    rw [evaluate] at h
    obtain ⟨u, hu, h⟩ := bind_eq_ok.1 h
    obtain ⟨v, hv, h⟩ := bind_eq_ok.1 h
    rw [mentions]
    rcases Value.binaryM_cases h with ⟨x, hx⟩ | rfl | rfl
    · cases hx
    · obtain ⟨n, hn, henv⟩ := ihl hu
      exact ⟨n, List.mem_append_left _ hn, henv⟩
    · obtain ⟨n, hn, henv⟩ := ihr hv
      exact ⟨n, List.mem_append_right _ hn, henv⟩
  | call fn args ih =>
    rw [evaluate] at h
    obtain ⟨vs, hvs, h⟩ := bind_eq_ok.1 h
    rcases Function.madeFrom_apply h with ⟨x, hx⟩ | hmem
    · cases hx
    · rw [evaluateAll_eq_mapM] at hvs
      obtain ⟨a, ha, hav⟩ := mem_of_mapM_eq_ok hvs hmem
      obtain ⟨n, hn, henv⟩ := ih a ha hav
      exact ⟨n, mem_mentionsOf.2 ⟨a, ha, hn⟩, henv⟩

theorem heeded_evaluate (henv : ∀ n s, env n = some (.sentinel s) → s.ignore = false) {v : Value α}
    (h : f.evaluate env = .ok v) : v.Heeded := by
  rintro s rfl
  obtain ⟨n, -, hn⟩ := sentinel_of_evaluate h
  exact henv n s hn

/-- Somewhere in a formula a number keeps a choice from handing missing data on. -/
def Overruled (env : String → Option (Value α)) (f : Formula α) : Prop :=
  ∃ fn args vs, Occurs (.call fn args) f ∧ evaluateAll env args = .ok vs ∧
    .sentinel .propagating ∈ vs ∧ ∃ v ∈ vs, ¬ v.Holds fn.Yields

theorem Overruled.of_operand (h : g.Overruled env) (hg : IsOperand g f) : f.Overruled env := by
  obtain ⟨fn, args, vs, hoccurs, hrest⟩ := h
  exact ⟨fn, args, vs, hoccurs.of_operand hg, hrest⟩

/-- An operand that is missing makes a call missing, or is overruled. -/
theorem call_propagating_or_overruled [OrderedNumbers α]
    (henv : ∀ n s, env n = some (.sentinel s) → s.ignore = false) {fn : Function}
    (hfn : fn ≠ .checkNoData) {args : List (Formula α)} {vs : List (Value α)}
    (hvs : evaluateAll env args = .ok vs)
    (hmissing : .sentinel .propagating ∈ vs) {v : Value α} (h : fn.apply vs = .ok v) :
    v = .sentinel .propagating ∨ (call fn args).Overruled env := by
  by_cases hyields : ∀ v ∈ vs, v.Holds fn.Yields
  · have hheeded : ∀ v ∈ vs, v.Heeded := by
      intro w hw
      rw [evaluateAll_eq_mapM] at hvs
      obtain ⟨b, -, hbw⟩ := mem_of_mapM_eq_ok hvs hw
      exact heeded_evaluate henv hbw
    exact .inl (Function.apply_propagating hfn hheeded hmissing hyields h)
  · push Not at hyields
    exact .inr ⟨fn, args, vs, .refl _, hvs, hmissing, hyields⟩

theorem propagating_or_overruled [OrderedNumbers α]
    (henv : ∀ n s, env n = some (.sentinel s) → s.ignore = false) (hcheck : ¬ f.Calls .checkNoData)
    {n : String} (hn : n ∈ f.mentions)
    (hmissing : env n = some (.sentinel .propagating)) {v : Value α} (h : f.evaluate env = .ok v) :
    v = .sentinel .propagating ∨ f.Overruled env := by
  induction f generalizing v with
  | number value => cases hn
  | name m =>
    cases List.mem_singleton.1 hn
    rw [evaluate, hmissing] at h
    cases h
    exact .inl rfl
  | sign sign f ih =>
    have hoperand := IsOperand.signed sign f
    rw [evaluate] at h
    obtain ⟨u, hu, h⟩ := bind_eq_ok.1 h
    rcases ih (fun hcalls => hcheck (hcalls.of_operand hoperand)) hn hu with rfl | hover
    · cases h
      cases sign <;> exact .inl rfl
    · exact .inr (hover.of_operand hoperand)
  | binary op l r ihl ihr =>
    have hleft := IsOperand.left op l r
    have hright := IsOperand.right op l r
    rw [evaluate] at h
    obtain ⟨u, hu, h⟩ := bind_eq_ok.1 h
    obtain ⟨w, hw, h⟩ := bind_eq_ok.1 h
    have hside : (u = .sentinel .propagating ∨ w = .sentinel .propagating) ∨
        (binary op l r).Overruled env := by
      rcases List.mem_append.1 hn with hn | hn
      · exact (ihl (fun hcalls => hcheck (hcalls.of_operand hleft)) hn hu).imp .inl
          (·.of_operand hleft)
      · exact (ihr (fun hcalls => hcheck (hcalls.of_operand hright)) hn hw).imp .inr
          (·.of_operand hright)
    refine hside.imp_left fun hside => ?_
    rw [Value.binaryM_propagating (heeded_evaluate henv hu) hside] at h
    exact (Except.ok.inj h).symm
  | call fn args ih =>
    rw [evaluate] at h
    obtain ⟨vs, hvs, h⟩ := bind_eq_ok.1 h
    obtain ⟨a, ha, hn⟩ := mem_mentionsOf.1 hn
    have hoperand := IsOperand.argument fn ha
    have hvalues := hvs
    rw [evaluateAll_eq_mapM] at hvalues
    obtain ⟨u, hu, hau⟩ := exists_mem_of_mapM_eq_ok hvalues ha
    rcases ih a ha (fun hcalls => hcheck (hcalls.of_operand hoperand)) hn hau with rfl | hover
    · have hfn : fn ≠ .checkNoData := by
        rintro rfl
        exact hcheck ⟨args, .refl _⟩
      exact call_propagating_or_overruled henv hfn hvs hu h
    · exact .inr (hover.of_operand hoperand)

/-- With finite numbers only, no choice is kept from handing missing data on. -/
theorem not_overruled_of_finite [FiniteNumbers α] [OrderedNumbers α]
    (henv : ∀ n v, env n = some v → v.Holds fun x => Scalar.isFinite x = true)
    (hf : f.Preserves (fun x => Scalar.isFinite x = true) env) : ¬ f.Overruled env := by
  rintro ⟨fn, args, vs, hoccurs, hvs, -, v, hv, hyields⟩
  rw [evaluateAll_eq_mapM] at hvs
  obtain ⟨a, ha, hav⟩ := mem_of_mapM_eq_ok hvs hv
  have hfinite : v.Holds fun x => Scalar.isFinite x = true :=
    holds_evaluate kept_finite henv ((hf.of_occurs hoccurs).of_operand (.argument fn ha)) hav
  exact hyields fun x hx => Function.yields_of_isFinite fn (hfinite x hx)

/-- Where no data is to be ignored and no `checknodata` is called, the value of a
    formula that mentions a missing name is missing, unless a number that is
    infinite or undefined has kept a choice from it. With finite numbers, those that
    aggregations and arc tangents of two numbers make included, none does. -/
theorem evaluate_propagates [FiniteNumbers α] [OrderedNumbers α]
    (henv : ∀ n s, env n = some (.sentinel s) → s.ignore = false) (hcheck : ¬ f.Calls .checkNoData)
    {n : String} (hn : n ∈ f.mentions)
    (hmissing : env n = some (.sentinel .propagating)) {v : Value α} (h : f.evaluate env = .ok v) :
    (v = .sentinel .propagating ∨ f.Overruled env) ∧
    ((∀ n v, env n = some v → v.Holds fun x => Scalar.isFinite x = true) →
      (∀ x, Occurs (.number x) f → Scalar.isFinite x = true) →
      (f.Calls .atan2 → ∀ y x : α, Scalar.isFinite y = true → Scalar.isFinite x = true →
        Scalar.isFinite (Scalar.atan2 y x) = true) →
      f.AggregatesKeep (fun x => Scalar.isFinite x = true) env → v = .sentinel .propagating) := by
  have hvalue := propagating_or_overruled henv hcheck hn hmissing h
  refine ⟨hvalue, fun hfinite hnumbers hatan2 haggregates => ?_⟩
  exact hvalue.resolve_right (not_overruled_of_finite hfinite ⟨hnumbers, hatan2, haggregates⟩)

/-! ## The smaller of two values -/

/-- Data of which one name is missing. -/
def holed (n : String) : Option (Value Float) :=
  if n = "a" then some (.sentinel .propagating) else if n = "b" then some (.number 3) else none

/-- The smaller of a name and twice another one. -/
def smallerDouble : Formula Float :=
  .call .min [.name "b", .binary .multiply (.number 2) (.name "a")]

theorem occurs_smallerDouble {p : Formula Float} : Occurs p smallerDouble ↔
    p = smallerDouble ∨ p = .name "b" ∨ p = .binary .multiply (.number 2) (.name "a") ∨
      p = .number 2 ∨ p = .name "a" := by
  simp [smallerDouble]

theorem evaluate_smallerDouble : smallerDouble.evaluate holed = .ok (.sentinel .propagating) := by
  obtain ⟨v, hv⟩ : ∃ v, smallerDouble.evaluate holed = .ok v := ⟨_, rfl⟩
  have henv : ∀ n v, holed n = some v → v = .sentinel .propagating ∨ v = .number 3 := by
    intro n v h
    unfold holed at h
    split_ifs at h <;> cases h
    · exact .inl rfl
    · exact .inr rfl
  have hheeded : ∀ n s, holed n = some (.sentinel s) → s.ignore = false := by
    intro n s h
    rcases henv n _ h with h | h <;> cases h
    rfl
  have hfinite : ∀ n v, holed n = some v → v.Holds fun x => Scalar.isFinite x = true := by
    intro n v h
    rcases henv n v h with rfl | rfl
    · exact Value.holds_of_resolve rfl
    · exact Value.holds_number.2 (by decide +kernel)
  have hcalls : ∀ fn args, Occurs (.call fn args) smallerDouble → fn = .min := by
    intro fn args h
    rcases occurs_smallerDouble.1 h with h | h | h | h | h <;> cases h
    rfl
  have hnumbers : ∀ x, Occurs (.number x) smallerDouble → Scalar.isFinite x = true := by
    intro x h
    rcases occurs_smallerDouble.1 h with h | h | h | h | h <;> cases h
    decide +kernel
  have hcheck : ¬ smallerDouble.Calls .checkNoData := by
    rintro ⟨args, h⟩
    cases hcalls _ _ h
  have hatan2 : smallerDouble.Calls .atan2 → ∀ y x : Float, Scalar.isFinite y = true →
      Scalar.isFinite x = true → Scalar.isFinite (Scalar.atan2 y x) = true := by
    rintro ⟨args, h⟩
    cases hcalls _ _ h
  have haggregates : smallerDouble.AggregatesKeep (fun x => Scalar.isFinite x = true) holed := by
    intro fn args hfn h
    cases hcalls _ _ h
    rcases hfn with h | h | h <;> cases h
  have hvalue := evaluate_propagates (n := "a") hheeded hcheck (by decide) rfl hv
  rw [hv, hvalue.2 hfinite hnumbers hatan2 haggregates]

/-- The tokens of `min(-inf, a)`. -/
def leastTokens : List Token :=
  [⟨.name, "min", 0⟩, ⟨.opening, "(", 3⟩, ⟨.minus, "-", 4⟩, ⟨.name, "inf", 5⟩, ⟨.comma, ",", 8⟩,
    ⟨.name, "a", 10⟩, ⟨.closing, ")", 11⟩]

/-- The smaller of minus infinity and a name. -/
def leastInfinity : Formula Float := .call .min [.sign .minus (.number Scalar.infinity), .name "a"]

theorem lex_leastInfinity : Token.lex "min(-inf, a)" = .ok leastTokens := by cbv

theorem parse_leastInfinity : parse "min(-inf, a)" = .ok leastInfinity := by
  rw [parse_eq_ok lex_leastInfinity, reads_iff_isSum]
  have hname : isBuiltinName "a" = false := by decide
  have hinfinity : IsAtom (leastTokens.drop 3) (.number (Scalar.infinity : Float))
      (leastTokens.drop 4) :=
    .constant rfl (by simp [NotOpened]) rfl
  have hsecond : AreParts (leastTokens.drop 5) [(.name "a" : Formula Float)] [] :=
    .last (isSum_name (by simp [NotOpened]) hname) rfl
  have hfirst : AreParts (leastTokens.drop 2)
      [.sign .minus (.number (Scalar.infinity : Float)), .name "a"] [] :=
    .more (.term (.factor (.minus rfl (.power (.atom hinfinity))))) rfl hsecond
  have hcall : IsAtom leastTokens leastInfinity [] :=
    .call rfl (by decide) rfl (.some hfirst) rfl
  exact .term (.factor (.power (.atom hcall)))

/-- Missing data ties with an infinity that stands in front of it. -/
theorem evaluate_least_infinity :
    parse "min(-inf, a)" = .ok leastInfinity ∧ ¬ leastInfinity.Calls .checkNoData ∧
      "a" ∈ leastInfinity.mentions ∧
      leastInfinity.evaluate (fun _ => some (.sentinel .propagating)) =
        .ok (.number (-Scalar.infinity)) := by
  refine ⟨parse_leastInfinity, ?_, by decide, ?_⟩
  · rintro ⟨args, h⟩
    simp [leastInfinity] at h
  · rfl

end Formula

end FuzzyInference
