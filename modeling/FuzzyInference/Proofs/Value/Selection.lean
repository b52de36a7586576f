import FuzzyInference.Proofs.Scalar.Finiteness
import FuzzyInference.Proofs.Value.Holds

/-!
# The smallest and the largest of several values

The smallest and the largest value are found in one pass that keeps the first of
the values with the best key and settles it at the end. Settling keeps the key of
a value, so the pass can be cut anywhere: the best of the best values of two
lists is the best value of both, with the same one of equal keys kept.

As long as all numbers are finite they stay apart from the keys of sentinels, and
the value that is found can be told without looking at the order of the list.

Results:

* `Contest`: the laws of keys that all this follows from.
* `Contest.choose_append`: the value of a list from the values of its parts.
* `Contest.chosen_choose` and `Contest.same_of_chosen`: which value is found among
  finite ones, in whatever order they are.
* `contest_minKey` and `contest_maxKey`: the keys of the minimum and the maximum.
-/

namespace FuzzyInference

variable {α : Type}

namespace Value

/-! ## Settled values -/

variable {u v w : Value α} {x : α}

theorem settle_of_resolve (h : v.resolve = some x) : v.settle = number x := by
  rw [settle, h]

theorem settle_of_resolve_eq_none (h : v.resolve = none) : v.settle = v := by
  rw [settle, h]

@[simp] theorem settle_settle (v : Value α) : v.settle.settle = v.settle := by
  cases h : v.resolve with
  | none => rw [settle_of_resolve_eq_none h, settle_of_resolve_eq_none h]
  | some x =>
    rw [settle_of_resolve h]
    rfl

/-- A value that stands for no number is the propagating sentinel or one that gives
    way. -/
theorem propagating_or_ignored (h : v.resolve = none) :
    v = sentinel .propagating ∨ ∃ s, v = sentinel s ∧ s.ignore = true := by
  rcases v with x | ⟨_ | _, _ | k⟩
  · cases h
  · exact .inl rfl
  · cases h
  · exact .inr ⟨_, rfl, rfl⟩
  · exact .inr ⟨_, rfl, rfl⟩

/-! ## The better of two values -/

/-- The better of two values by their keys, the first one if the second one is not
    better. -/
def pick (key : Value α → α) (better : α → α → Bool) (u v : Value α) : Value α :=
  if better (key v) (key u) then v else u

/-- The best value of a list, settled. -/
def choose (key : Value α → α) (better : α → α → Bool) : List (Value α) → Option (Value α)
  | [] => none
  | v :: vs => some (best key better v vs).settle

section

variable {key : Value α → α} {better : α → α → Bool}

theorem pick_of_better (h : better (key v) (key u) = true) : pick key better u v = v := if_pos h

theorem pick_of_not_better (h : better (key v) (key u) = false) : pick key better u v = u :=
  if_neg (Bool.eq_false_iff.1 h)

theorem pick_induction {P : Value α → Prop} (hu : P u) (hv : P v) : P (pick key better u v) := by
  unfold pick
  split
  · exact hv
  · exact hu

theorem best_cons (u v : Value α) (vs : List (Value α)) :
    best key better u (v :: vs) = best key better (pick key better u v) vs := rfl

theorem best_append (u : Value α) (vs ws : List (Value α)) :
    best key better u (vs ++ ws) = best key better (best key better u vs) ws := by
  induction vs generalizing u with
  | nil => rfl
  | cons v vs ih => exact ih (pick key better u v)

end

/-! ## Keys -/

variable [Scalar α]

/-- The number that a value stands for, if there is one, is not undefined. -/
abbrev IsDefined (v : Value α) : Prop := v.Holds (Scalar.isNaN · = false)

/-- The number that a value stands for, if there is one, is finite. -/
abbrev IsFinite (v : Value α) : Prop := v.Holds (Scalar.isFinite · = true)

/-- Being better is a weak order, whose opposite is `le`. -/
structure Ranking (better : α → α → Bool) (le : α → α → Prop) : Prop where
  not_self : ∀ a, better a a = false
  trans : ∀ {a b c}, better a b = true → better b c = true → better a c = true
  split : ∀ {a b c}, Scalar.isNaN b = false → better a c = true → better a b = true ∨
    better b c = true
  le_of_not_better : ∀ {a b}, Scalar.isNaN a = false → Scalar.isNaN b = false →
    better b a = false → le a b
  beq_of_le : ∀ {a b}, le a b → le b a → (a == b) = true

/-- Keys that values compete by. A value has the key of the number it stands for.
    Among finite numbers a propagating sentinel is the best and an ignored one the
    worst. -/
structure Contest (key : Value α → α) (better : α → α → Bool) (le : α → α → Prop) : Prop
    extends Ranking better le where
  key_of_resolve : ∀ {v x}, v.resolve = some x → key v = x
  isNaN_key : ∀ {v}, IsDefined v → Scalar.isNaN (key v) = false
  propagating_better : ∀ {v}, IsFinite v → v ≠ sentinel .propagating →
    better (key (sentinel .propagating)) (key v) = true
  better_ignored : ∀ {a} {s : Sentinel α}, Scalar.isFinite a = true → s.ignore = true →
    better a (key (sentinel s)) = true

namespace Contest

variable {key : Value α → α} {better : α → α → Bool} {le : α → α → Prop} {vs ws : List (Value α)}

theorem not_better (h : Contest key better le) {a b : α} (hab : better a b = true) :
    better b a = false :=
  Bool.eq_false_iff.2 fun hba => Bool.false_ne_true ((h.not_self a).symm.trans (h.trans hab hba))

theorem key_settle (h : Contest key better le) (v : Value α) : key v.settle = key v := by
  cases hv : v.resolve with
  | none => rw [settle_of_resolve_eq_none hv]
  | some x => rw [settle_of_resolve hv, h.key_of_resolve hv, h.key_of_resolve rfl]

/-! ## Choosing in parts -/

/-- Choosing is associative as long as the key in the middle is a number. -/
theorem pick_assoc (h : Contest key better le) (hv : IsDefined v) :
    pick key better (pick key better u v) w = pick key better u (pick key better v w) := by
  cases huv : better (key v) (key u) with
  | true =>
    cases hvw : better (key w) (key v) with
    | true => rw [pick_of_better huv, pick_of_better hvw, pick_of_better (h.trans hvw huv)]
    | false => rw [pick_of_better huv, pick_of_not_better hvw, pick_of_better huv]
  | false =>
    cases huw : better (key w) (key u) with
    | true =>
      -- the third value beats the first one, so it beats the second one, which does not
      have hvw : better (key w) (key v) = true :=
        (h.split (h.isNaN_key hv) huw).resolve_right (Bool.eq_false_iff.1 huv)
      rw [pick_of_not_better huv, pick_of_better huw, pick_of_better hvw, pick_of_better huw]
    | false =>
      rw [pick_of_not_better huv, pick_of_not_better huw]
      exact (pick_induction (P := fun x => pick key better u x = u) (pick_of_not_better huv)
        (pick_of_not_better huw)).symm

theorem best_pick (h : Contest key better le) (hv : IsDefined v) (hvs : ∀ w ∈ vs, IsDefined w) :
    best key better (pick key better u v) vs = pick key better u (best key better v vs) := by
  induction vs generalizing v with
  | nil => rfl
  | cons w vs ih =>
    rw [List.forall_mem_cons] at hvs
    rw [best_cons, h.pick_assoc hv, ih (pick_induction hv hvs.1) hvs.2]
    rfl

theorem settle_pick_settle (h : Contest key better le) (u v : Value α) :
    (pick key better u.settle v.settle).settle = (pick key better u v).settle := by
  unfold pick
  rw [h.key_settle, h.key_settle, apply_ite settle, apply_ite settle, settle_settle, settle_settle]

/-- The best of two lists is the better one of their best values. -/
theorem choose_append (h : Contest key better le) (hvs : vs ≠ []) (hws : ws ≠ [])
    (hdefined : ∀ w ∈ ws, IsDefined w) :
    ∃ v w, choose key better vs = some v ∧ choose key better ws = some w ∧
      choose key better (vs ++ ws) = choose key better [v, w] := by
  obtain ⟨v, vs, rfl⟩ := List.exists_cons_of_ne_nil hvs
  obtain ⟨w, ws, rfl⟩ := List.exists_cons_of_ne_nil hws
  rw [List.forall_mem_cons] at hdefined
  refine ⟨_, _, rfl, rfl, congrArg some ?_⟩
  calc (best key better v (vs ++ w :: ws)).settle
      = (best key better (pick key better (best key better v vs) w) ws).settle := by
        rw [best_append, best_cons]
    _ = (pick key better (best key better v vs) (best key better w ws)).settle := by
        rw [h.best_pick hdefined.1 hdefined.2]
    _ = (pick key better (best key better v vs).settle (best key better w ws).settle).settle :=
        (h.settle_pick_settle _ _).symm

/-! ## The value that is chosen -/

/-- No value of a list is better than the best one. -/
theorem not_better_best (h : Contest key better le) {v : Value α} {vs : List (Value α)}
    (hvs : ∀ u ∈ v :: vs, IsDefined u) :
    ∀ u ∈ v :: vs, better (key u) (key (best key better v vs)) = false := by
  induction vs generalizing v with
  | nil =>
    rintro u hu
    obtain rfl := List.mem_singleton.1 hu
    exact h.not_self _
  | cons w vs ih =>
    simp only [List.forall_mem_cons] at hvs ih ⊢
    obtain ⟨hv, hw, hvs⟩ := hvs
    have hpick : IsDefined (pick key better v w) := pick_induction hv hw
    obtain ⟨hwinner, hrest⟩ := ih ⟨hpick, hvs⟩
    -- what does not beat the winner of the first two values does not beat what the winner does
    -- not beat
    have hloser : ∀ u, better (key u) (key (pick key better v w)) = false →
        better (key u) (key (best key better v (w :: vs))) = false := by
      intro u hu
      refine Bool.eq_false_iff.2 fun hbeats => ?_
      rcases h.split (h.isNaN_key hpick) hbeats with hbeats | hbeats
      · exact Bool.false_ne_true (hu.symm.trans hbeats)
      · exact Bool.false_ne_true (hwinner.symm.trans hbeats)
    refine ⟨hloser v ?_, hloser w ?_, hrest⟩
    · cases hvw : better (key w) (key v) with
      | true => rw [pick_of_better hvw, h.not_better hvw]
      | false => rw [pick_of_not_better hvw, h.not_self]
    · cases hvw : better (key w) (key v) with
      | true => rw [pick_of_better hvw, h.not_self]
      | false => rw [pick_of_not_better hvw, hvw]

end Contest

/-- What is chosen among finite values: missing data if there is some, else the
    first of the numbers in their order, else what is to be ignored. -/
inductive Chosen (le : α → α → Prop) (vs : List (Value α)) : Value α → Prop
  | missing (h : sentinel .propagating ∈ vs) : Chosen le vs (sentinel .propagating)
  | number {x : α} (h : sentinel .propagating ∉ vs) (hx : ∃ v ∈ vs, v.resolve = some x)
    (hle : ∀ v ∈ vs, ∀ y, v.resolve = some y → le x y) : Chosen le vs (number x)
  | ignored {v : Value α} (h : sentinel .propagating ∉ vs) (hnone : ∀ u ∈ vs, u.resolve = none)
    (hv : v ∈ vs) : Chosen le vs v

omit [Scalar α] in
theorem Chosen.eq_propagating {le : α → α → Prop} {vs : List (Value α)} {w : Value α}
    (hw : Chosen le vs w) (h : sentinel .propagating ∈ vs) : w = sentinel .propagating := by
  cases hw with
  | missing => rfl
  | number hnot => exact absurd h hnot
  | ignored hnot => exact absurd h hnot

/-- The sentinels of a list that are to be ignored have the same settings. -/
def IgnoredAlike (vs : List (Value α)) : Prop :=
  ∀ s t, sentinel s ∈ vs → sentinel t ∈ vs → s.ignore = true → t.ignore = true → s.same t = true

theorem IsFinite.isDefined {v : Value α} (h : v.IsFinite) : v.IsDefined :=
  fun x hx => Scalar.isNaN_of_isFinite (h x hx)

namespace Contest

variable {key : Value α → α} {better : α → α → Bool} {le : α → α → Prop} {v w : Value α}
  {vs ws : List (Value α)}

theorem chosen_choose (h : Contest key better le) (hne : vs ≠ []) (hvs : ∀ v ∈ vs, IsFinite v) :
    ∃ w, choose key better vs = some w ∧ Chosen le vs w := by
  obtain ⟨v, vs, rfl⟩ := List.exists_cons_of_ne_nil hne
  refine ⟨_, rfl, ?_⟩
  have hdefined : ∀ u ∈ v :: vs, IsDefined u := fun u hu => (hvs u hu).isDefined
  have hmem := best_mem key better v vs
  have hbest := h.not_better_best hdefined
  generalize best key better v vs = w at hmem hbest
  by_cases hmissing : sentinel .propagating ∈ v :: vs
  · -- nothing beats the winner, and a propagating sentinel beats all but itself
    have hw : w = sentinel .propagating := by
      by_contra hw
      exact Bool.false_ne_true
        ((hbest _ hmissing).symm.trans (h.propagating_better (hvs w hmem) hw))
    rw [hw]
    exact .missing hmissing
  · cases hw : w.resolve with
    | some x =>
      rw [settle_of_resolve hw]
      refine .number hmissing ⟨w, hmem, hw⟩ fun u hu y hy => ?_
      have hnot := hbest u hu
      rw [h.key_of_resolve hy, h.key_of_resolve hw] at hnot
      exact h.le_of_not_better (hdefined w hmem x hw) (hdefined u hu y hy) hnot
    | none =>
      rw [settle_of_resolve_eq_none hw]
      obtain ⟨s, rfl, hs⟩ := (propagating_or_ignored hw).resolve_left (fun h => hmissing (h ▸ hmem))
      refine .ignored hmissing (fun u hu => ?_) hmem
      cases hy : u.resolve with
      | none => rfl
      | some y =>
        have hnot := hbest u hu
        rw [h.key_of_resolve hy, h.better_ignored (hvs u hu y hy) hs] at hnot
        cases hnot

/-- Which value is chosen does not depend on the order of the values. -/
theorem same_of_chosen (h : Contest key better le) (hperm : vs.Perm ws) (halike : IgnoredAlike vs)
    (hv : Chosen le vs v) (hw : Chosen le ws w) : v.same w = true := by
  cases hv with
  | missing hv =>
    cases hw with
    | missing hw => rfl
    | number hw => exact absurd (hperm.subset hv) hw
    | ignored hw => exact absurd (hperm.subset hv) hw
  | @number x hv hx hxle =>
    obtain ⟨u, hu, hux⟩ := hx
    cases hw with
    | missing hw => exact absurd (hperm.symm.subset hw) hv
    | @number y _ hy hyle =>
      obtain ⟨t, ht, hty⟩ := hy
      exact h.beq_of_le (hxle t (hperm.symm.subset ht) y hty) (hyle u (hperm.subset hu) x hux)
    | ignored hw hnone =>
      rw [hnone u (hperm.subset hu)] at hux
      cases hux
  | ignored hv hnone hmem =>
    cases hw with
    | missing hw => exact absurd (hperm.symm.subset hw) hv
    | number hw hy =>
      obtain ⟨t, ht, hty⟩ := hy
      rw [hnone t (hperm.symm.subset ht)] at hty
      cases hty
    | ignored hw hnone' hmem' =>
      obtain ⟨s, rfl, hs⟩ :=
        (propagating_or_ignored (hnone v hmem)).resolve_left fun h => hv (h ▸ hmem)
      obtain ⟨t, rfl, ht⟩ :=
        (propagating_or_ignored (hnone' w hmem')).resolve_left fun h => hw (h ▸ hmem')
      exact halike s t hmem (hperm.symm.subset hmem') hs ht

end Contest

/-! ## Minimum and maximum -/

section

variable [OrderedNumbers α]

open OrderedNumbers

/-- Smaller numbers first. -/
theorem ranking_lt : Ranking (fun a b : α => decide (a < b)) (· ≤ ·) where
  not_self a := decide_eq_false fun h => Scalar.not_lt_of_lt h h
  trans hab hbc := by
    rw [decide_eq_true_eq, lt_iff] at hab hbc ⊢
    exact ⟨le_trans hab.1 hbc.1, fun hca => hab.2 (le_trans hbc.1 hca)⟩
  split := by
    intro a b c hb hac
    rw [decide_eq_true_eq, lt_iff] at hac
    rw [decide_eq_true_eq, decide_eq_true_eq, lt_iff, lt_iff]
    rcases le_total (defined_of_le hac.1).1 hb with hab | hba
    · by_cases hba : b ≤ a
      · exact .inr ⟨le_trans hba hac.1, fun hcb => hac.2 (le_trans hcb hba)⟩
      · exact .inl ⟨hab, hba⟩
    · exact .inr ⟨le_trans hba hac.1, fun hcb => hac.2 (le_trans hcb hba)⟩
  le_of_not_better := by
    intro a b ha hb h
    by_contra hab
    exact of_decide_eq_false h (lt_iff.2 ⟨(le_total ha hb).resolve_left hab, hab⟩)
  beq_of_le hab hba := beq_iff.2 ⟨hab, hba⟩

omit [OrderedNumbers α] in
/-- The opposite order. -/
theorem Ranking.swap {better : α → α → Bool} {le : α → α → Prop} (h : Ranking better le) :
    Ranking (fun a b => better b a) (fun a b => le b a) where
  not_self := h.not_self
  trans hab hbc := h.trans hbc hab
  split hb hac := (h.split hb hac).symm
  le_of_not_better ha hb hnot := h.le_of_not_better hb ha hnot
  beq_of_le hab hba := h.beq_of_le hba hab

end

section

variable {s : Sentinel α} {v : Value α} {x : α}

theorem minKey_ignored (hs : s.ignore = true) : minKey (sentinel s) = Scalar.infinity := if_pos hs

theorem maxKey_ignored (hs : s.ignore = true) : maxKey (sentinel s) = -Scalar.infinity := if_pos hs

theorem keys_of_resolve (h : v.resolve = some x) : minKey v = x ∧ maxKey v = x := by
  rcases v with y | ⟨_ | _, _ | k⟩ <;> cases h <;> exact ⟨rfl, rfl⟩

/-- The keys of sentinels are the two ends of the order. -/
theorem Contest.of_ends {key : Value α → α} {better : α → α → Bool} {le : α → α → Prop}
    {first last : α} (hranking : Ranking better le) (hkey : ∀ {v x}, v.resolve = some x → key v = x)
    (hmissing : key (sentinel .propagating) = first)
    (hignored : ∀ {s : Sentinel α}, s.ignore = true → key (sentinel s) = last)
    (hfirst : Scalar.isNaN first = false) (hlast : Scalar.isNaN last = false)
    (hbefore : ∀ {a}, Scalar.isFinite a = true → better first a = true)
    (hbehind : ∀ {a}, Scalar.isFinite a = true → better a last = true)
    (hends : better first last = true) :
    Contest key better le where
  toRanking := hranking
  key_of_resolve := hkey
  isNaN_key := by
    intro v hv
    cases hx : v.resolve with
    | some x => rw [hkey hx, hv x hx]
    | none =>
      rcases propagating_or_ignored hx with rfl | ⟨s, rfl, hs⟩
      · rw [hmissing, hfirst]
      · rw [hignored hs, hlast]
  propagating_better := by
    intro v hv hne
    rw [hmissing]
    cases hx : v.resolve with
    | some x =>
      rw [hkey hx]
      exact hbefore (hv x hx)
    | none =>
      obtain ⟨s, rfl, hs⟩ := (propagating_or_ignored hx).resolve_left hne
      rw [hignored hs, hends]
  better_ignored ha hs := by rw [hignored hs, hbehind ha]

variable [FiniteNumbers α]

theorem isNaN_negInfinity : Scalar.isNaN (-Scalar.infinity : α) = false :=
  (FiniteNumbers.isNaN_neg _).trans FiniteNumbers.isNaN_infinity

variable [OrderedNumbers α]

theorem negInfinity_lt_infinity : (-Scalar.infinity : α) < Scalar.infinity :=
  of_decide_eq_true
    (ranking_lt.trans (decide_eq_true (OrderedNumbers.negInfinity_lt FiniteNumbers.isFinite_e))
    (decide_eq_true (OrderedNumbers.lt_infinity FiniteNumbers.isFinite_e)))

theorem contest_minKey : Contest (α := α) minKey (fun a b => decide (a < b)) (· ≤ ·) :=
  .of_ends ranking_lt (fun h => (keys_of_resolve h).1) rfl minKey_ignored isNaN_negInfinity
    FiniteNumbers.isNaN_infinity (fun h => decide_eq_true (OrderedNumbers.negInfinity_lt h))
    (fun h => decide_eq_true (OrderedNumbers.lt_infinity h))
      (decide_eq_true negInfinity_lt_infinity)

theorem contest_maxKey : Contest (α := α) maxKey (fun a b => decide (b < a)) (· ≥ ·) :=
  .of_ends ranking_lt.swap (fun h => (keys_of_resolve h).2) rfl maxKey_ignored
    FiniteNumbers.isNaN_infinity
    isNaN_negInfinity (fun h => decide_eq_true (OrderedNumbers.lt_infinity h))
    (fun h => decide_eq_true (OrderedNumbers.negInfinity_lt h))
      (decide_eq_true negInfinity_lt_infinity)

end

theorem minOf_eq_choose (vs : List (Value α)) :
    minOf vs = choose minKey (fun a b => decide (a < b)) vs := by
  cases vs <;> rfl

theorem maxOf_eq_choose (vs : List (Value α)) :
    maxOf vs = choose maxKey (fun a b => decide (b < a)) vs := by
  cases vs <;> rfl

end Value

end FuzzyInference
