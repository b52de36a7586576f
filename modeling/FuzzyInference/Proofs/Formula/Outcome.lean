import FuzzyInference.Proofs.Error.Result
import FuzzyInference.Proofs.Formula.Parts
import FuzzyInference.Proofs.Rule.Outcome

/-!
# How formulas fail

A formula fails for want of a name that it mentions and that has no value, or on
account of the numbers that its names stand for.

Results:

* `Function.numeric_apply`: calls fail on account of numbers only.
* `evaluate_eq_error`: the errors of formulas.
-/

namespace FuzzyInference

variable {α : Type}

/-! ## Operations on values -/

section

variable {op : α → α → Result α α} {f : α → Result α α}

theorem Value.numeric_withRight (h : ∀ a b, Numeric (op a b)) (a : α) (v : Value α) :
    Numeric (withRight op a v) := by
  cases v with
  | number b => exact numeric_map (h a b)
  | sentinel s =>
    rw [withRight]
    split
    · exact numeric_ok _
    · split
      · exact numeric_map (h a _)
      · exact numeric_ok _

theorem Value.numeric_binaryM (h : ∀ a b, Numeric (op a b)) (u v : Value α) :
    Numeric (binaryM op u v) := by
  cases u with
  | number a => exact numeric_withRight h a v
  | sentinel s =>
    rw [binaryM]
    split
    · exact numeric_ok _
    · split
      · exact numeric_withRight h _ v
      · exact numeric_ok _

theorem Value.numeric_mapM (h : ∀ a, Numeric (f a)) (v : Value α) : Numeric (mapM f v) := by
  rw [mapM]
  split
  · exact numeric_map (h _)
  · exact numeric_ok _

end

variable [Scalar α]

theorem numeric_checked (fault : ArithmeticFault) (operands : List α) (x : α) :
    Numeric (checked fault operands x) := by
  rw [checked]
  split
  · exact numeric_error trivial
  · exact numeric_ok _

theorem Operator.numeric_powerOf (a b : α) : Numeric (powerOf a b) := by
  rw [powerOf]
  split
  · exact numeric_error trivial
  · split
    · exact numeric_error trivial
    · exact numeric_checked _ _ _

theorem Operator.numeric_apply (op : Operator) (a b : α) : Numeric (op.apply a b) := by
  cases op with
  | add | subtract | multiply => exact numeric_checked _ _ _
  | divide | floorDivide | remainder =>
    rw [apply]
    split
    · exact numeric_error trivial
    · exact numeric_checked _ _ _
  | power => exact numeric_powerOf a b

/-! ## Functions -/

namespace Function

omit [Scalar α] in
theorem numeric_domain (x : α) (ok : Bool) : Numeric (domain x ok) := by
  cases ok
  · exact numeric_error trivial
  · exact numeric_ok _

theorem numeric_whole (x rounded : α) : Numeric (whole x rounded) := by
  rw [whole]
  split
  · exact numeric_ok _
  · exact numeric_error trivial

theorem numeric_unaryValue (f : Function) (x : α) : Numeric (f.unaryValue x) := by
  cases f with
  | abs | round | float | asinh | atan | degrees | radians | exp | sinh | tanh => exact numeric_ok _
  | int | ceil | floor => exact numeric_whole _ _
  | acos | asin | acosh | atanh | log | log2 | log10 | sin | sqrt | tan =>
    exact numeric_map (numeric_domain _ _)
  | _ => exact numeric_error trivial

theorem numeric_unary (f : Function) (x : α) : Numeric (f.unary x) :=
  numeric_bind (f.numeric_unaryValue x) fun _ => numeric_checked _ _ _

theorem numeric_roundTo (x places : α) : Numeric (roundTo x places) := by
  rw [roundTo]
  split
  · exact numeric_checked _ _ _
  · exact numeric_error trivial

theorem numeric_logTo (x base : α) : Numeric (logTo x base) := by
  rw [logTo]
  split
  · exact numeric_error trivial
  · exact numeric_checked _ _ _

omit [Scalar α] in
theorem numeric_select (f : Function) (choose : List (Value α) → Option (Value α))
    (vs : List (Value α)) : Numeric (select f choose vs) := by
  rw [select]
  split
  · exact numeric_error trivial
  · split
    · exact numeric_ok _
    · exact numeric_error trivial

theorem numeric_applyFew (f : Function) (vs : List (Value α)) : Numeric (applyFew f vs) := by
  unfold applyFew
  split
  · exact Value.numeric_binaryM numeric_roundTo _ _
  · exact Value.numeric_binaryM numeric_logTo _ _
  · exact Value.numeric_binaryM Operator.numeric_powerOf _ _
  · exact numeric_ok _
  · exact Value.numeric_mapM (numeric_unary f) _
  · exact numeric_error trivial

/-- A call fails on account of its arguments. -/
theorem numeric_apply (f : Function) (vs : List (Value α)) : Numeric (f.apply vs) := by
  cases f with
  | max | min => exact numeric_select _ _ vs
  | sum | product =>
    intro e he
    obtain ⟨fault, rfl⟩ := AggregateOp.apply_eq_error he
    trivial
  | gamma =>
    cases vs with
    | nil => exact numeric_error trivial
    | cons weight operands =>
      intro e he
      obtain ⟨fault, rfl⟩ := gammaMean_eq_error he
      trivial
  | checkNoData =>
    match vs with
    | [] => exact numeric_applyFew .checkNoData []
    | [v] => exact numeric_applyFew .checkNoData [v]
    | _ :: _ :: _ => exact numeric_ok _
  | _ => exact numeric_applyFew _ vs

end Function

/-! ## Formulas -/

namespace Formula

variable {env : String → Option (Value α)}

/-- The error of a formula is about a name it mentions, which has no value, or about
    numbers. -/
theorem evaluate_eq_error {f : Formula α} {e : Error α} (h : f.evaluate env = .error e) :
    (∃ n ∈ f.mentions, env n = none ∧ e = .missingValue n) ∨ e.IsNumeric := by
  -- Only the leaves look names up. Every other node passes on the error of a part or fails on
  -- its own account, which is about the values of the parts.
  induction f with
  | number value => cases h
  | name n =>
    rw [evaluate] at h
    split at h
    · cases h
    · cases h
      exact .inl ⟨n, by simp [mentions], ‹_›, rfl⟩
  | sign s f ih =>
    rw [mentions]
    rcases bind_eq_error.1 h with h | ⟨v, -, h⟩
    · exact ih h
    · cases h
  | binary op l r ihl ihr =>
    rw [mentions]
    rcases bind_eq_error.1 h with h | ⟨u, -, h⟩
    · exact (ihl h).imp_left (Exists.imp fun n => And.imp_left (List.mem_append_left _))
    · rcases bind_eq_error.1 h with h | ⟨v, -, h⟩
      · exact (ihr h).imp_left (Exists.imp fun n => And.imp_left (List.mem_append_right _))
      · exact .inr (Value.numeric_binaryM op.numeric_apply u v e h)
  | call fn args ih =>
    rw [mentions]
    rcases bind_eq_error.1 h with h | ⟨vs, -, h⟩
    · rw [evaluateAll_eq_mapM] at h
      obtain ⟨a, ha, h⟩ := mapM_eq_error h
      exact (ih a ha h).imp_left
        (Exists.imp fun n => And.imp_left fun hn => mem_mentionsOf.2 ⟨a, ha, hn⟩)
    · exact .inr (fn.numeric_apply vs e h)

end Formula

end FuzzyInference
