import FuzzyInference.Proofs.Implication.Rearrangement

/-!
# Unions of implications

Implications over one range are united in some grouping. A missing one gives way
to a present one, so the union has the terms of the present members in their
order, and it is missing only if all of them are. If the missing members carry
one sentinel, the order and the grouping decide about the order of terms alone.

Results:

* `union_collects`: one union collects what both sides have collected.
* `unite_collects`: so does a whole grouping, which has a union.
* `rearranged_of_perm`: groupings of the same implications differ in the order
  of terms.
-/

namespace FuzzyInference

variable {α : Type}

namespace Implication

/-- Implications in the order and the grouping that they are united in. -/
inductive Grouping (α : Type) where
  | one (i : Implication α)
  | both (left right : Grouping α)

/-- The implications of a grouping, from left to right. -/
def Grouping.members : Grouping α → List (Implication α)
  | .one i => [i]
  | .both l r => l.members ++ r.members

/-- The union of a grouping. -/
def Grouping.unite [Scalar α] : Grouping α → Result α (Implication α)
  | .one i => .ok i
  | .both l r => do (← l.unite).union (← r.unite)

/-- The terms of the implications that are not missing. -/
def presentTerms (is : List (Implication α)) : List (Clipped α) :=
  is.flatMap fun i => if i.noData.isNone then i.terms else []

/-- Whether all implications of a list are missing. -/
def allMissing (is : List (Implication α)) : Bool := is.all fun i => i.noData.isSome

/-- An implication over a range, which is missing, if at all, as the sentinel
    says. -/
structure Over (min max : α) (s : Sentinel α) (i : Implication α) : Prop where
  min_eq : i.min = min
  max_eq : i.max = max
  missing : ∀ t, i.noData = some t → t = s

/-- An implication over a range that has collected what some implications
    conclude. -/
structure Collects (min max : α) (s : Sentinel α) (is : List (Implication α)) (i : Implication α) :
    Prop where
  min_eq : i.min = min
  max_eq : i.max = max
  noData_eq : i.noData = if allMissing is then some s else none
  terms_eq : i.noData = none → i.terms = presentTerms is

theorem presentTerms_append (is js : List (Implication α)) :
    presentTerms (is ++ js) = presentTerms is ++ presentTerms js := List.flatMap_append

theorem allMissing_append (is js : List (Implication α)) :
    allMissing (is ++ js) = (allMissing is && allMissing js) := List.all_append

theorem presentTerms_of_allMissing {is : List (Implication α)} (h : allMissing is = true) :
    presentTerms is = [] := by
  rw [presentTerms, List.flatMap_eq_nil_iff]
  intro i hi
  have hmissing := List.all_eq_true.1 h i hi
  rw [Option.isNone_eq_false_iff.2 hmissing]
  rfl

section

variable {min max : α} {s : Sentinel α} {is js : List (Implication α)} {i j : Implication α}

theorem over_ofClip_number (min max : α) (c : Curve α) (h : α) :
    Over min max s (.ofClip min max c (.number h)) := ⟨rfl, rfl, by simp [ofClip]⟩

theorem over_ofClip_sentinel (min max : α) (c : Curve α) {t : Sentinel α}
    (ht : t.substitution = none) :
    Over min max ⟨t.ignore, none⟩ (.ofClip min max c (.sentinel t)) := by
  refine ⟨?_, ?_, ?_⟩ <;> simp [ofClip, ht]

theorem Over.collects (h : Over min max s i) : Collects min max s [i] i := by
  cases hi : i.noData with
  | none =>
    exact ⟨h.min_eq, h.max_eq, by simp [allMissing, hi], fun _ => by simp [presentTerms, hi]⟩
  | some t =>
    obtain rfl := h.missing t hi
    exact ⟨h.min_eq, h.max_eq, by simp [allMissing, hi], fun hnone => by simp [hi] at hnone⟩

/-- Collections of the same implications differ in the order of terms. -/
theorem rearranged_of_perm (hi : Collects min max s is i) (hj : Collects min max s js j)
    (hperm : is.Perm js) : Rearranged i j := by
  have hall : allMissing is = allMissing js := hperm.all_eq
  have hnoData : i.noData = j.noData := by rw [hi.noData_eq, hj.noData_eq, hall]
  refine ⟨hi.min_eq.trans hj.min_eq.symm, hi.max_eq.trans hj.max_eq.symm, hnoData, fun hin => ?_⟩
  rw [hi.terms_eq hin, hj.terms_eq (hnoData.symm.trans hin)]
  exact hperm.flatMap_right _

variable [Scalar α]

/-- One union collects what both sides have collected. -/
theorem union_collects (hmin : (min == min) = true) (hmax : (max == max) = true)
    (hi : Collects min max s is i) (hj : Collects min max s js j) :
    ∃ k, i.union j = .ok k ∧ Collects min max s (is ++ js) k := by
  have hrange : (i.min == j.min && i.max == j.max) = true := by
    rw [hi.min_eq, hi.max_eq, hj.min_eq, hj.max_eq, hmin, hmax]
    rfl
  have hinoData := hi.noData_eq
  have hjnoData := hj.noData_eq
  cases his : allMissing is with
  | true =>
    rw [his, if_pos rfl] at hinoData
    refine ⟨j, union_noData_left hrange (by rw [hinoData]; rfl), hj.min_eq, hj.max_eq,
      ?_, fun h => ?_⟩
    · rw [allMissing_append, his, Bool.true_and, hjnoData]
    · rw [presentTerms_append, presentTerms_of_allMissing his, List.nil_append, hj.terms_eq h]
  | false =>
    rw [his, if_neg Bool.false_ne_true] at hinoData
    cases hjs : allMissing js with
    | true =>
      rw [hjs, if_pos rfl] at hjnoData
      refine ⟨i, by simp [union, hrange, hinoData, hjnoData], hi.min_eq, hi.max_eq, ?_, fun h => ?_⟩
      · rw [allMissing_append, his, Bool.false_and, if_neg Bool.false_ne_true, hinoData]
      · rw [presentTerms_append, presentTerms_of_allMissing hjs, List.append_nil, hi.terms_eq h]
    | false =>
      rw [hjs, if_neg Bool.false_ne_true] at hjnoData
      refine ⟨{ i with terms := i.terms ++ j.terms }, by simp [union, hrange, hinoData, hjnoData],
        hi.min_eq, hi.max_eq, ?_, fun _ => ?_⟩
      · rw [allMissing_append, his, Bool.false_and, if_neg Bool.false_ne_true, hinoData]
      · rw [presentTerms_append, ← hi.terms_eq hinoData, ← hj.terms_eq hjnoData]

/-- A grouping over one range has a union, which collects what the members
    conclude. -/
theorem unite_collects (hmin : (min == min) = true) (hmax : (max == max) = true) (g : Grouping α)
    (h : ∀ m ∈ g.members, Over min max s m) :
    ∃ i, g.unite = .ok i ∧ Collects min max s g.members i := by
  induction g with
  | one i => exact ⟨i, rfl, (h i (by simp [Grouping.members])).collects⟩
  | both l r ihl ihr =>
    obtain ⟨i, hi, hcollects⟩ := ihl fun m hm => h m (List.mem_append_left _ hm)
    obtain ⟨j, hj, hcollects'⟩ := ihr fun m hm => h m (List.mem_append_right _ hm)
    obtain ⟨k, hk, hunion⟩ := union_collects hmin hmax hcollects hcollects'
    exact ⟨k, bind_eq_ok.2 ⟨i, hi, bind_eq_ok.2 ⟨j, hj, hk⟩⟩, hunion⟩

end

end Implication

end FuzzyInference
