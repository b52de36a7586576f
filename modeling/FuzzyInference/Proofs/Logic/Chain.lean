import FuzzyInference.Formula.Evaluate
import FuzzyInference.Proofs.Value.Selection

/-!
# Chains of conjunctions and disjunctions

`AND` and `OR` choose between two values as the minimum and the maximum of a
formula choose between many. Which of equal values stays, and that a substitute is
settled, is the same however a chain of one of them is bracketed, so the chain has
the value of one call with all its operands.

Results:

* `LawfulChoice`: what can be done with the operands of a choice.
* `minOf_maxOf_lawful`: the minimum and the maximum are such choices.
-/

namespace FuzzyInference

variable {α : Type}

open Value

/-! ## Brackets -/

/-- The operands of a chain of one connective, with the brackets around its
    parts. -/
inductive Bracketing (α : Type) where
  | operand (v : Value α)
  | joined (l r : Bracketing α)

namespace Bracketing

/-- The operands from left to right. -/
def operands : Bracketing α → List (Value α)
  | operand v => [v]
  | joined l r => l.operands ++ r.operands

/-- The value of the chain. -/
def value [Scalar α] (op : LogicOp) : Bracketing α → Value α
  | operand v => v
  | joined l r => op.apply (l.value op) (r.value op)

theorem operands_ne_nil (b : Bracketing α) : b.operands ≠ [] := by
  cases b with
  | operand v => exact List.cons_ne_nil v []
  | joined l r => exact List.append_ne_nil_of_left_ne_nil l.operands_ne_nil _

theorem two_le_length_operands (l r : Bracketing α) : 2 ≤ (joined l r).operands.length := by
  have hl := List.length_pos_iff.2 l.operands_ne_nil
  have hr := List.length_pos_iff.2 r.operands_ne_nil
  rw [operands, List.length_append]
  omega

end Bracketing

variable [Scalar α]

/-! ## Lawful choices -/

/-- A choice among values can be made in parts, bracket by bracket as well as at
    once, and among finite values in any order. The choice comes as a connective of
    two values and as a function of formulas; `le` is the order of the numbers that
    it prefers. -/
structure LawfulChoice (choose : List (Value α) → Option (Value α)) (op : LogicOp) (fn : Function)
    (le : α → α → Prop) : Prop where
  append : ∀ vs ws, vs ≠ [] → ws ≠ [] → (∀ v ∈ vs ++ ws, v.IsDefined) →
    ∃ v w, choose vs = some v ∧ choose ws = some w ∧ choose (vs ++ ws) = choose [v, w]
  chain : ∀ l r : Bracketing α, (∀ v ∈ (l.joined r).operands, v.IsDefined) →
    fn.apply (l.joined r).operands = .ok ((l.joined r).value op)
  chosen : ∀ vs, vs ≠ [] → (∀ v ∈ vs, v.IsFinite) → ∃ w, choose vs = some w ∧ Chosen le vs w
  reorder : ∀ vs ws, vs.Perm ws → vs ≠ [] → (∀ v ∈ vs, v.IsFinite) → IgnoredAlike vs →
    ∃ v w, choose vs = some v ∧ choose ws = some w ∧ v.same w = true

omit [Scalar α] in
theorem Function.select_of_choose (f : Function) {choose : List (Value α) → Option (Value α)}
    {vs : List (Value α)} {v : Value α} (hlength : 2 ≤ vs.length) (h : choose vs = some v) :
    f.select choose vs = .ok v := by
  rw [Function.select, if_neg (by omega), h]

namespace Value.Contest

variable {key : Value α → α} {better : α → α → Bool} {le : α → α → Prop} {op : LogicOp}
  {fn : Function}

/-- The operands of a chain compete at once or bracket by bracket. -/
theorem choose_operands (h : Contest key better le)
    (hop : ∀ u v, op.apply u v = (pick key better u v).settle) {b : Bracketing α}
    (hb : ∀ v ∈ b.operands, v.IsDefined) :
    choose key better b.operands = some (b.value op).settle := by
  induction b with
  | operand v => rfl
  | joined l r ihl ihr =>
    rw [Bracketing.operands, List.forall_mem_append] at hb
    obtain ⟨u, v, hu, hv, happend⟩ := h.choose_append l.operands_ne_nil r.operands_ne_nil hb.2
    obtain rfl := Option.some.inj (hu.symm.trans (ihl hb.1))
    obtain rfl := Option.some.inj (hv.symm.trans (ihr hb.2))
    rw [Bracketing.operands, happend, Bracketing.value, hop, settle_settle]
    exact congrArg some (h.settle_pick_settle _ _)

theorem lawfulChoice (h : Contest key better le)
    (hop : ∀ u v, op.apply u v = (pick key better u v).settle)
    (hfn : ∀ vs, fn.apply vs = fn.select (choose key better) vs) :
    LawfulChoice (choose key better) op fn le where
  append vs ws hvs hws hdefined := h.choose_append hvs hws (List.forall_mem_append.1 hdefined).2
  chain l r hdefined := by
    have hchoose := h.choose_operands hop hdefined
    rw [Bracketing.value, hop, settle_settle, ← hop] at hchoose
    rw [hfn, fn.select_of_choose (l.two_le_length_operands r) hchoose, Bracketing.value]
  chosen vs hne hfinite := h.chosen_choose hne hfinite
  reorder vs ws hperm hne hfinite halike := by
    have hne' : ws ≠ [] := fun hnil => hne (List.Perm.nil_eq (hnil ▸ hperm.symm)).symm
    obtain ⟨v, hv, hchosen⟩ := h.chosen_choose hne hfinite
    obtain ⟨w, hw, hchosen'⟩ := h.chosen_choose hne' fun u hu => hfinite u (hperm.symm.subset hu)
    exact ⟨v, w, hv, hw, h.same_of_chosen hperm halike hchosen hchosen'⟩

end Value.Contest

/-! ## Minimum and maximum -/

theorem both_eq_pick (u v : Value α) :
    LogicOp.both u v = (pick minKey (fun a b => decide (a < b)) u v).settle := rfl

theorem either_eq_pick (u v : Value α) :
    LogicOp.either u v = (pick maxKey (fun a b => decide (b < a)) u v).settle := rfl

/-- Minimum and maximum can be regrouped in whatever way, and make one choice from
    finite values in whatever order. A chain of `AND` is a minimum and a chain of
    `OR` a maximum of all its operands. -/
theorem minOf_maxOf_lawful [OrderedNumbers α] [FiniteNumbers α] :
    LawfulChoice (α := α) minOf .and .min (· ≤ ·) ∧
    LawfulChoice (α := α) maxOf .or .max (· ≥ ·) := by
  have hmin : (minOf : List (Value α) → Option (Value α)) = choose minKey fun a b =>
      decide (a < b) :=
    funext minOf_eq_choose
  have hmax : (maxOf : List (Value α) → Option (Value α)) = choose maxKey fun a b =>
      decide (b < a) :=
    funext maxOf_eq_choose
  rw [hmin, hmax]
  exact ⟨contest_minKey.lawfulChoice both_eq_pick fun vs =>
    congrArg (Function.select .min · vs) hmin,
    contest_maxKey.lawfulChoice either_eq_pick fun vs => congrArg (Function.select .max · vs) hmax⟩

/-- Two values with the same key for the minimum, and two that stand for the same
    number. -/
def boundless : List (Value Float) := [.sentinel ⟨true, some 3⟩, .number Scalar.infinity]

/-- A missing value with a quarter for its substitute, and the number one
    quarter. -/
def quarters : List (Value Float) := [.sentinel (.substituting 0.25), .number 0.25]

theorem isFinite_quarters : ∀ v ∈ quarters, v.IsFinite := by
  simp only [quarters, List.forall_mem_cons, List.not_mem_nil, false_implies,
    implies_true, and_true]
  exact ⟨fun x hx => by cases hx; decide, holds_number.2 (by decide)⟩

theorem isDefined_boundless : ∀ v ∈ boundless, v.IsDefined := by
  simp only [boundless, List.forall_mem_cons, List.not_mem_nil, false_implies,
    implies_true, and_true]
  exact ⟨holds_of_resolve rfl, holds_number.2 (by decide)⟩

/-- The least of four values from two halves with a tie each, and the greatest of
    two in either order. -/
theorem minOf_boundless :
    (∀ v ∈ boundless ++ quarters, v.IsDefined) ∧
    minOf (boundless ++ quarters) = minOf [.sentinel ⟨true, some 3⟩, .number 0.25] ∧
    (∀ v ∈ quarters, v.IsFinite) ∧ IgnoredAlike quarters ∧
    ∃ v w, maxOf quarters = some v ∧ maxOf quarters.reverse = some w ∧ v.same w = true := by
  have hdefined : ∀ v ∈ boundless ++ quarters, v.IsDefined :=
    List.forall_mem_append.2 ⟨isDefined_boundless, fun v hv => (isFinite_quarters v hv).isDefined⟩
  have halike : IgnoredAlike quarters := by
    intro s t hs _ hignore
    simp only [quarters, List.mem_cons, Value.sentinel.injEq, reduceCtorEq, List.not_mem_nil,
      or_false] at hs
    subst hs
    cases hignore
  obtain ⟨v, w, hv, hw, h⟩ :=
    minOf_maxOf_lawful.1.append boundless quarters (by decide) (by decide) hdefined
  obtain rfl := Option.some.inj hv
  obtain rfl := Option.some.inj hw
  exact ⟨hdefined, h, isFinite_quarters, halike,
    minOf_maxOf_lawful.2.reorder quarters quarters.reverse (List.reverse_perm _).symm (by decide)
      isFinite_quarters
      halike⟩

end FuzzyInference
