import FuzzyInference.Proofs.Formula.Missing
import FuzzyInference.Proofs.Logic.Chain
import FuzzyInference.Proofs.Scalar.Exact

/-!
# Complements of conjunctions and disjunctions

Over exact scalars the complement turns the order of numbers around, and with it
the keys of the minimum into those of the maximum: a number competes for the one
as its complement does for the other, and a sentinel is at the same end of both.
So the complement of a conjunction is the disjunction of the complements, with or
without missing data.

Where nothing is ignored, `XOR` is the disjunction of the two ways in which one
operand holds and the other one does not.

Results:

* `one_sub_lt_iff`: the complement turns the order around.
* `minKey_negate` and `maxKey_negate`: what it does to keys.
* `negate_apply`: complements of connectives, and `XOR` made of the other ones.
-/

namespace FuzzyInference

open Value

/-! ## Turning the order around -/

namespace Exact

theorem place?_one_sub (a : Exact) : (1 - a).place? = a.place?.map (1 - ·) := by
  have hsub : 1 - a = add (real 1) (neg a) := congrArg (add · (neg a)) one_eq
  rw [hsub]
  cases a with
  | real x =>
    change some ((1 + -x : ℝ) : EReal) = some (1 - (x : EReal))
    rw [← sub_eq_add_neg, EReal.coe_sub, EReal.coe_one]
  | infinite s =>
    cases s with
    | true => exact congrArg some (EReal.coe_sub_bot 1).symm
    | false => exact congrArg some (EReal.sub_top 1).symm
  | undefined => rfl

theorem one_sub_strictAnti : StrictAnti fun p : EReal => 1 - p := fun _ _ h =>
  EReal.add_lt_add_left_coe (EReal.neg_lt_neg_iff.2 h) 1

/-- The complement turns the order around, also at the infinities. -/
theorem one_sub_lt_iff {a b : Exact} : 1 - a < 1 - b ↔ b < a := by
  change (∃ p q, _ ∧ _ ∧ _) ↔ ∃ p q, _ ∧ _ ∧ _
  simp only [place?_one_sub, Option.map_eq_some_iff]
  constructor
  · rintro ⟨_, _, ⟨p, hp, rfl⟩, ⟨q, hq, rfl⟩, hlt⟩
    exact ⟨q, p, hq, hp, one_sub_strictAnti.lt_iff_gt.1 hlt⟩
  · rintro ⟨q, p, hq, hp, hlt⟩
    exact ⟨_, _, ⟨p, hp, rfl⟩, ⟨q, hq, rfl⟩, one_sub_strictAnti hlt⟩

end Exact

/-! ## Complements of choices -/

theorem minKey_negate (v : Value Exact) : (negate v).minKey = 1 - v.maxKey := by
  rcases v with x | ⟨_ | _, _ | k⟩ <;> rfl

theorem maxKey_negate (v : Value Exact) : (negate v).maxKey = 1 - v.minKey := by
  rcases v with x | ⟨_ | _, _ | k⟩ <;> rfl

theorem negate_settle (v : Value Exact) : negate v.settle = (negate v).settle := by
  rcases v with x | ⟨_ | _, _ | k⟩ <;> rfl

/-- A choice of complements by keys in the opposite order is the complement of the
    choice. -/
theorem negate_pick {key key' : Value Exact → Exact} {better better' : Exact → Exact → Bool}
    (hkey : ∀ v, key' (negate v) = 1 - key v)
    (hbetter : ∀ a b, better' (1 - a) (1 - b) = better a b) (u v : Value Exact) :
    negate (pick key better u v).settle = (pick key' better' (negate u) (negate v)).settle := by
  rw [negate_settle, pick, pick, hkey, hkey, hbetter, apply_ite negate]

theorem negate_both (u v : Value Exact) :
    negate (LogicOp.both u v) = LogicOp.either (negate u) (negate v) := by
  rw [both_eq_pick, either_eq_pick]
  exact negate_pick maxKey_negate (fun _ _ => decide_eq_decide.2 Exact.one_sub_lt_iff) u v

theorem negate_either (u v : Value Exact) :
    negate (LogicOp.either u v) = LogicOp.both (negate u) (negate v) := by
  rw [both_eq_pick, either_eq_pick]
  exact negate_pick minKey_negate (fun _ _ => decide_eq_decide.2 Exact.one_sub_lt_iff) u v

/-! ## Values that are heeded -/

instance : FiniteNumbers Exact where
  isNaN_neg a := by cases a <;> rfl
  isInfinite_neg a := by cases a <;> rfl
  isNaN_ofDecimal _ := rfl
  isNaN_infinity := rfl
  isFinite_e := rfl
  isFinite_pi := rfl

section

variable {u v : Value Exact} {a b : ℝ}

theorem settle_pick_of_resolve {key : Value Exact → Exact} {better : Exact → Exact → Bool}
    (hkey : ∀ {w x}, w.resolve = some x → key w = x) (hu : u.resolve = some (.real a))
    (hv : v.resolve = some (.real b)) :
    (pick key better u v).settle = .number ((if better b a = true then b else a : ℝ)) := by
  rw [pick, hkey hu, hkey hv]
  split_ifs
  · exact settle_of_resolve hv
  · exact settle_of_resolve hu

theorem both_of_resolve (hu : u.resolve = some (.real a)) (hv : v.resolve = some (.real b)) :
    LogicOp.both u v = .number (min a b : ℝ) := by
  rw [both_eq_pick, settle_pick_of_resolve (fun h => (keys_of_resolve h).1) hu hv,
    min_comm, min_def_lt]
  simp only [decide_eq_true_eq, Exact.real_lt]

theorem either_of_resolve (hu : u.resolve = some (.real a)) (hv : v.resolve = some (.real b)) :
    LogicOp.either u v = .number (max a b : ℝ) := by
  rw [either_eq_pick, settle_pick_of_resolve (fun h => (keys_of_resolve h).2) hu hv, max_def_lt]
  simp only [decide_eq_true_eq, Exact.real_lt]

theorem negate_of_resolve (hu : u.resolve = some (.real a)) : negate u = .number (1 - a : ℝ) := by
  rw [negate, map, mapM, hu]
  exact congrArg Value.number (by simp)

theorem negate_of_resolve_eq_none (hu : u.resolve = none) : negate u = u := by
  rw [negate, map, mapM, hu]
  rfl

theorem isFinite_negate (hu : u.IsFinite) : (negate u).IsFinite := by
  cases hx : u.resolve with
  | none => rwa [negate_of_resolve_eq_none hx]
  | some x =>
    obtain ⟨a, rfl⟩ := Exact.isFinite_iff.1 (hu x hx)
    rw [negate_of_resolve hx]
    exact holds_number.2 rfl

/-- Missing data is what both connectives make of it and finite data. -/
theorem connectives_propagating (hu : u.IsFinite) (hv : v.IsFinite)
    (h : u = .sentinel .propagating ∨ v = .sentinel .propagating) :
    LogicOp.both u v = .sentinel .propagating ∧ LogicOp.either u v = .sentinel .propagating := by
  have hmem : .sentinel .propagating ∈ [u, v] := by
    rcases h with rfl | rfl
    · exact List.mem_cons_self
    · exact List.mem_cons_of_mem _ List.mem_cons_self
  have hfinite : ∀ w ∈ [u, v], w.IsFinite := by simp [hu, hv]
  obtain ⟨x, hx, hleast⟩ := contest_minKey.chosen_choose (List.cons_ne_nil u [v]) hfinite
  obtain ⟨y, hy, hgreatest⟩ := contest_maxKey.chosen_choose (List.cons_ne_nil u [v]) hfinite
  rw [hleast.eq_propagating hmem] at hx
  rw [hgreatest.eq_propagating hmem] at hy
  exact ⟨Option.some.inj hx, Option.some.inj hy⟩

/-- To be at least one of two things but not both is to be the first one without the
    second one, or the second one without the first one. -/
theorem min_one_sub_min (a b : ℝ) :
    min (1 - min a b) (max a b) = max (min a (1 - b)) (min (1 - a) b) := by
  rcases le_total a b with h | h
  · rw [min_eq_left h, max_eq_right h, max_eq_right]
    refine le_min ((min_le_right _ _).trans (by linarith)) ((min_le_left _ _).trans h)
  · rw [min_eq_right h, max_eq_left h, max_eq_left, min_comm]
    refine le_min ((min_le_right _ _).trans h) ((min_le_left _ _).trans (by linarith))

theorem xor_of_resolve (hu : u.resolve = some (.real a)) (hv : v.resolve = some (.real b)) :
    LogicOp.xor.apply u v = .number (max (min a (1 - b)) (min (1 - a) b) : ℝ) := by
  rw [← min_one_sub_min]
  have hleft : (negate (LogicOp.both u v)).resolve = some (.real (1 - min a b)) := by
    rw [both_of_resolve hu hv, negate_of_resolve rfl]
    rfl
  have hright : (LogicOp.either u v).resolve = some (.real (max a b)) := by
    rw [either_of_resolve hu hv]
    rfl
  exact both_of_resolve hleft hright

end

/-! ## Connectives -/

/-- A value that is heeded is missing data, or stands for a real number if it is
    finite. -/
theorem propagating_or_real {u : Value Exact} (hfinite : u.IsFinite) (hheeded : u.Heeded) :
    u = .sentinel .propagating ∨ ∃ a : ℝ, u.resolve = some (.real a) := by
  cases hx : u.resolve with
  | none => exact .inl (hheeded.eq_propagating hx)
  | some x =>
    obtain ⟨a, rfl⟩ := Exact.isFinite_iff.1 (hfinite x hx)
    exact .inr ⟨a, rfl⟩

/-- Missing data reaches through `XOR` and through the connectives that it is made
    of. -/
theorem xor_propagating {u v : Value Exact} (hu : u.IsFinite) (hv : v.IsFinite)
    (h : u = .sentinel .propagating ∨ v = .sentinel .propagating) :
    LogicOp.xor.apply u v = .sentinel .propagating ∧
      LogicOp.either (LogicOp.both u (negate v)) (LogicOp.both (negate u) v) =
        .sentinel .propagating := by
  have hnegate : negate (.sentinel .propagating) = (.sentinel .propagating : Value Exact) := rfl
  have hfinite : (.sentinel .propagating : Value Exact).IsFinite := holds_of_resolve rfl
  obtain ⟨hboth, heither⟩ := connectives_propagating hfinite hfinite (.inl rfl)
  obtain ⟨hand, hor⟩ := connectives_propagating hu hv h
  have hleft : LogicOp.both u (negate v) = .sentinel .propagating :=
    (connectives_propagating hu (isFinite_negate hv) (h.imp_right (congrArg negate))).1
  have hright : LogicOp.both (negate u) v = .sentinel .propagating :=
    (connectives_propagating (isFinite_negate hu) hv (h.imp_left (congrArg negate))).1
  refine ⟨?_, ?_⟩
  · rw [LogicOp.apply, hand, hor, hnegate, hboth]
  · rw [hleft, hright, heither]

/-- Over exact scalars the complement of `AND` is the `OR` of the complements, and
    the other way around. Of finite values that are not to be ignored, `XOR` does
    not depend on the order, and is what `AND`, `OR` and `NOT` make of the two ways
    in which one of them holds without the other. -/
theorem negate_apply (u v : Value Exact) :
    negate (LogicOp.and.apply u v) = LogicOp.or.apply (negate u) (negate v) ∧
    negate (LogicOp.or.apply u v) = LogicOp.and.apply (negate u) (negate v) ∧
    (u.IsFinite → v.IsFinite → u.Heeded → v.Heeded →
      LogicOp.xor.apply u v = LogicOp.xor.apply v u ∧
      LogicOp.xor.apply u v =
        LogicOp.or.apply (LogicOp.and.apply u (negate v)) (LogicOp.and.apply (negate u) v)) := by
  refine ⟨negate_both u v, negate_either u v, fun hu hv hheeded hheeded' => ?_⟩
  rcases propagating_or_real hu hheeded with hmissing | ⟨a, ha⟩
  · obtain ⟨hxor, hways⟩ := xor_propagating hu hv (.inl hmissing)
    exact ⟨hxor.trans (xor_propagating hv hu (.inr hmissing)).1.symm, hxor.trans hways.symm⟩
  · rcases propagating_or_real hv hheeded' with hmissing | ⟨b, hb⟩
    · obtain ⟨hxor, hways⟩ := xor_propagating hu hv (.inr hmissing)
      exact ⟨hxor.trans (xor_propagating hv hu (.inl hmissing)).1.symm, hxor.trans hways.symm⟩
    · have hways : LogicOp.either (LogicOp.both u (negate v)) (LogicOp.both (negate u) v) =
          .number (max (min a (1 - b)) (min (1 - a) b) : ℝ) := by
        rw [negate_of_resolve ha, negate_of_resolve hb, both_of_resolve ha rfl,
          both_of_resolve rfl hb]
        exact either_of_resolve rfl rfl
      have hturned : max (min b (1 - a)) (min (1 - b) a) = max (min a (1 - b)) (min (1 - a) b) := by
        rw [max_comm, min_comm (1 - b), min_comm b]
      rw [xor_of_resolve ha hb, xor_of_resolve hb ha, hturned]
      exact ⟨rfl, hways.symm⟩

/-- A missing value with a quarter for its substitute, and the number one half. -/
noncomputable def missingQuarter : Value Exact := .sentinel (.substituting (.real 0.25))

/-- The number one half. -/
noncomputable def plainHalf : Value Exact := .number (.real 0.5)

theorem xor_missingQuarter_plainHalf :
    (missingQuarter.IsFinite ∧ plainHalf.IsFinite ∧ missingQuarter.Heeded ∧ plainHalf.Heeded) ∧
    LogicOp.xor.apply plainHalf missingQuarter = LogicOp.xor.apply missingQuarter plainHalf ∧
    LogicOp.xor.apply missingQuarter plainHalf = .number (.real 0.5) := by
  have hquarter : missingQuarter.IsFinite := fun x hx => Option.some.inj hx ▸ rfl
  have hhalf : plainHalf.IsFinite := fun x hx => Option.some.inj hx ▸ rfl
  have hheeded : missingQuarter.Heeded := fun s h => Value.sentinel.inj h ▸ rfl
  have hheeded' : plainHalf.Heeded := heeded_number _
  obtain ⟨hcomm, hways⟩ :=
    (negate_apply missingQuarter plainHalf).2.2 hquarter hhalf hheeded hheeded'
  refine ⟨⟨hquarter, hhalf, hheeded, hheeded'⟩, hcomm.symm, ?_⟩
  have hleft : LogicOp.both missingQuarter (negate plainHalf) = .number (.real 0.25) := by
    rw [negate_of_resolve rfl, both_of_resolve rfl rfl, min_eq_left (by norm_num)]
  have hright : LogicOp.both (negate missingQuarter) plainHalf = .number (.real 0.5) := by
    rw [negate_of_resolve rfl, both_of_resolve rfl rfl, min_eq_right (by norm_num)]
  rw [hways, LogicOp.apply, LogicOp.apply, LogicOp.apply, hleft, hright, either_of_resolve rfl rfl,
    max_eq_right (by norm_num)]

end FuzzyInference
