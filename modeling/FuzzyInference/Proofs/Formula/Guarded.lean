import FuzzyInference.Proofs.Formula.Literals
import FuzzyInference.Proofs.Formula.Parsing
import FuzzyInference.Proofs.Value.Holds

/-!
# Guarded arithmetic

Operations and functions of formulas check their results, or hand on what they
were given, so from finite numbers they make finite numbers or fail. Three functions
are not checked: sums, products and gamma means overflow in silence. Formulas
are safe up to these.

Results:

* `Kept`: a property that signs and checked results keep.
* `holds_apply`: what calls make of values with such a property.
* `Preserves` and `holds_evaluate`: which formulas keep it, and what they make of them.
* `evaluate_guarded`: where the value of a formula is defined, and where it is
  finite.
* `evaluate_overflow`: a product that is infinite.
-/

namespace FuzzyInference

variable {α : Type}

/-! ## Checked operations -/

section

variable [Scalar α] {P : α → Prop}

/-- A property of numbers that signs and checked results keep. -/
structure Kept (P : α → Prop) : Prop where
  neg : ∀ a, P a → P (-a)
  checked : ∀ {fault operands x y}, checked fault operands x = .ok y → (∀ a ∈ operands, P a) → P y

theorem kept_defined [FiniteNumbers α] : Kept fun x : α => Scalar.isNaN x = false where
  neg a h := by rw [FiniteNumbers.isNaN_neg, h]
  checked h _ := by
    obtain ⟨rfl, hdefined⟩ := checked_eq_ok h
    exact hdefined

theorem kept_finite [FiniteNumbers α] : Kept fun x : α => Scalar.isFinite x = true where
  neg a h := by
    rw [Scalar.isFinite_iff] at h ⊢
    rw [FiniteNumbers.isNaN_neg, FiniteNumbers.isInfinite_neg]
    exact h
  checked := by
    intro fault operands x y h hoperands
    unfold FuzzyInference.checked at h
    split at h
    · cases h
    · rename_i hpassed
      cases h
      have hall : operands.all Scalar.isFinite = true := List.all_eq_true.2 hoperands
      rw [hall, Bool.and_true, Bool.or_eq_true, not_or, Bool.not_eq_true,
        Bool.not_eq_true] at hpassed
      exact Scalar.isFinite_iff.2 hpassed

theorem Kept.pair (hP : Kept P) {fault : ArithmeticFault} {a b x y : α}
    (h : FuzzyInference.checked fault [a, b] x = .ok y) (ha : P a) (hb : P b) : P y := by
  refine hP.checked h ?_
  rw [List.forall_mem_cons, List.forall_mem_singleton]
  exact ⟨ha, hb⟩

theorem Kept.single (hP : Kept P) {fault : ArithmeticFault} {a x y : α}
    (h : FuzzyInference.checked fault [a] x = .ok y) (ha : P a) : P y :=
  hP.checked h (List.forall_mem_singleton.2 ha)

theorem Kept.powerOf (hP : Kept P) (a b c : α) (ha : P a) (hb : P b)
    (h : Operator.powerOf a b = .ok c) : P c := by
  unfold Operator.powerOf at h
  split_ifs at h
  exact hP.pair h ha hb

theorem Kept.operator (hP : Kept P) (op : Operator) (a b c : α) (ha : P a) (hb : P b)
    (h : op.apply a b = .ok c) : P c := by
  cases op with
  | add => exact hP.pair h ha hb
  | subtract => exact hP.pair h ha hb
  | multiply => exact hP.pair h ha hb
  | divide =>
    unfold Operator.apply at h
    simp only at h
    split_ifs at h
    exact hP.pair h ha hb
  | floorDivide =>
    unfold Operator.apply at h
    simp only at h
    split_ifs at h
    exact hP.pair h ha hb
  | remainder =>
    unfold Operator.apply at h
    simp only at h
    split_ifs at h
    exact hP.pair h ha hb
  | power => exact hP.powerOf a b c ha hb h

/-! ## Calls -/

namespace Function

variable {fn : Function} {vs : List (Value α)} {w : Value α}

theorem kept_unary (hP : Kept P) (fn : Function) (a c : α) (ha : P a)
    (h : fn.unary a = .ok c) : P c := by
  obtain ⟨x, -, h⟩ := bind_eq_ok.1 h
  exact hP.single h ha

theorem kept_roundTo (hP : Kept P) (a b c : α) (ha : P a) (_ : P b)
    (h : roundTo a b = .ok c) : P c := by
  unfold roundTo at h
  split_ifs at h
  exact hP.single h ha

theorem kept_logTo (hP : Kept P) (a b c : α) (ha : P a) (hb : P b)
    (h : logTo a b = .ok c) : P c := by
  unfold logTo at h
  split_ifs at h
  exact hP.pair h ha hb

/-- The functions whose results are not checked against their operands. -/
def IsAggregate (fn : Function) : Prop := fn = .sum ∨ fn = .product ∨ fn = .gamma

theorem holds_applyFew (hP : Kept P) (hvs : ∀ v ∈ vs, v.Holds P)
    (hatan2 : fn = .atan2 → ∀ y x, P y → P x → P (Scalar.atan2 y x)) (h : fn.applyFew vs = .ok w) :
    w.Holds P := by
  unfold applyFew at h
  split at h
  · rw [List.forall_mem_cons, List.forall_mem_singleton] at hvs
    exact Value.holds_binaryM (kept_roundTo hP) hvs.1 hvs.2 h
  · rw [List.forall_mem_cons, List.forall_mem_singleton] at hvs
    exact Value.holds_binaryM (kept_logTo hP) hvs.1 hvs.2 h
  · rw [List.forall_mem_cons, List.forall_mem_singleton] at hvs
    exact Value.holds_binaryM hP.powerOf hvs.1 hvs.2 h
  · rw [List.forall_mem_cons, List.forall_mem_singleton] at hvs
    cases h
    exact Value.holds_binary (hatan2 rfl) hvs.1 hvs.2
  · rw [List.forall_mem_singleton] at hvs
    exact Value.holds_mapM (kept_unary hP _) hvs h
  · cases h

omit [Scalar α] in
theorem select_eq_ok {choose : List (Value α) → Option (Value α)}
    (h : select fn choose vs = .ok w) : choose vs = some w := by
  unfold select at h
  split at h
  · cases h
  · split at h
    · rename_i v hv
      cases h
      exact hv
    · cases h

theorem holds_checkNoData (hP : Kept P) (hvs : ∀ v ∈ vs, v.Holds P)
    (h : Function.checkNoData.apply vs = .ok w) : w.Holds P := by
  rcases vs with _ | ⟨value, _ | ⟨ifMissing, rest⟩⟩
  · have hfew : Function.checkNoData.applyFew [] = .ok w := h
    refine holds_applyFew hP hvs ?_ hfew
    exact nofun
  · have hfew : Function.checkNoData.applyFew [value] = .ok w := h
    refine holds_applyFew hP hvs ?_ hfew
    exact nofun
  · cases h
    split
    · exact hvs ifMissing (by simp)
    · cases rest with
      | nil => exact hvs value (by simp)
      | cons ifPresent rest => exact hvs ifPresent (by simp)

/-- What an aggregation makes of operands stands for what they stand for, unless it
    is a number. -/
theorem holds_aggregate (hfn : fn.IsAggregate) (hvs : ∀ v ∈ vs, v.Holds P)
    (hnumber : ∀ x, fn.apply vs = .ok (.number x) → P x) (h : fn.apply vs = .ok w) : w.Holds P := by
  have hmade : Value.MadeFrom vs w := by
    rcases hfn with rfl | rfl | rfl
    · exact Value.madeFrom_apply h
    · exact Value.madeFrom_apply h
    · cases vs with
      | nil => cases h
      | cons weight vs => exact Value.madeFrom_gammaMean h
  rcases hmade with ⟨x, rfl⟩ | hmem
  · exact Value.holds_number.2 (hnumber x h)
  · exact hvs w hmem

/-- A call keeps what its operands have, if its aggregation does. -/
theorem holds_apply (hP : Kept P) (hvs : ∀ v ∈ vs, v.Holds P)
    (hatan2 : fn = .atan2 → ∀ y x, P y → P x → P (Scalar.atan2 y x))
    (haggregate : fn.IsAggregate → ∀ x, fn.apply vs = .ok (.number x) → P x)
    (h : fn.apply vs = .ok w) : w.Holds P := by
  by_cases hfn : fn.IsAggregate
  · exact holds_aggregate hfn hvs (haggregate hfn) h
  · unfold IsAggregate at hfn
    unfold apply at h
    split at h
    · exact Value.holds_chosen hvs (.inr (select_eq_ok h))
    · exact Value.holds_chosen hvs (.inl (select_eq_ok h))
    · exact absurd (.inl rfl) hfn
    · exact absurd (.inr (.inl rfl)) hfn
    · exact absurd (.inr (.inr rfl)) hfn
    · exact holds_checkNoData hP hvs h
    · exact holds_applyFew hP hvs hatan2 h

end Function

/-! ## Formulas -/

namespace Formula

variable {env : String → Option (Value α)} {f : Formula α}

/-- Sums, products and gamma means in a formula keep a property of their
    operands. -/
def AggregatesKeep (P : α → Prop) (env : String → Option (Value α)) (f : Formula α) : Prop :=
  ∀ fn args, fn.IsAggregate → Occurs (.call fn args) f → ∀ vs, evaluateAll env args = .ok vs →
    (∀ v ∈ vs, v.Holds P) → ∀ x, fn.apply vs = .ok (.number x) → P x

/-- What makes a formula keep a property: its numbers have it, and its arc tangents
    of two numbers and its aggregations keep it. -/
structure Preserves (P : α → Prop) (env : String → Option (Value α)) (f : Formula α) : Prop where
  number : ∀ x, Occurs (.number x) f → P x
  arc : f.Calls .atan2 → ∀ y x, P y → P x → P (Scalar.atan2 y x)
  aggregates : f.AggregatesKeep P env

theorem Preserves.of_occurs {g : Formula α} (h : f.Preserves P env) (hg : Occurs g f) :
    g.Preserves P env where
  number x hx := h.number x (hx.trans hg)
  arc := fun ⟨args, hcall⟩ => h.arc ⟨args, hcall.trans hg⟩
  aggregates fn args hfn hcall := h.aggregates fn args hfn (hcall.trans hg)

theorem Preserves.of_operand {g : Formula α} (h : f.Preserves P env) (hg : IsOperand g f) :
    g.Preserves P env :=
  h.of_occurs (.single hg)

/-- A formula over values with a property has it, if its numbers and aggregations
    do. -/
theorem holds_evaluate (hP : Kept P) (henv : ∀ n v, env n = some v → v.Holds P)
    (hf : f.Preserves P env) {w : Value α} (h : f.evaluate env = .ok w) : w.Holds P := by
  induction f generalizing w with
  | number value =>
    cases h
    exact Value.holds_number.2 (hf.number value (.refl _))
  | name n =>
    rw [evaluate] at h
    split at h
    · rename_i v hv
      cases h
      exact henv n w hv
    · cases h
  | sign s f ih =>
    rw [evaluate] at h
    obtain ⟨v, hv, h⟩ := bind_eq_ok.1 h
    have hholds := ih (hf.of_operand (.signed s f)) hv
    cases h
    cases s with
    | minus => exact Value.holds_neg hP.neg hholds
    | plus => exact hholds
  | binary op l r ihl ihr =>
    rw [evaluate] at h
    obtain ⟨u, hu, h⟩ := bind_eq_ok.1 h
    obtain ⟨v, hv, h⟩ := bind_eq_ok.1 h
    have hl := ihl (hf.of_operand (.left op l r)) hu
    have hr := ihr (hf.of_operand (.right op l r)) hv
    exact Value.holds_binaryM (hP.operator op) hl hr h
  | call fn args ih =>
    rw [evaluate] at h
    obtain ⟨vs, hvs, h⟩ := bind_eq_ok.1 h
    have hall : ∀ v ∈ vs, v.Holds P := by
      intro v hv
      rw [evaluateAll_eq_mapM] at hvs
      obtain ⟨a, ha, hav⟩ := mem_of_mapM_eq_ok hvs hv
      exact ih a ha (hf.of_operand (.argument fn ha)) hav
    refine Function.holds_apply hP hall ?_ ?_ h
    · rintro rfl
      exact hf.arc ⟨args, .refl _⟩
    · exact fun hfn => hf.aggregates fn args hfn (.refl _) vs hvs hall

/-- Over finite numbers a formula is defined or fails, and where the source neither
    says `inf` nor has a literal out of range it is also finite, as far as its sums,
    products and gamma means are. Nothing checks the arc tangent of two numbers
    either, which is an angle and so finite by itself. -/
theorem evaluate_guarded [FiniteNumbers α] {source : String} {ts : List Token}
    (hlex : Token.lex source = .ok ts) (hparse : parse source = .ok f)
    (henv : ∀ n v, env n = some v → v.Holds fun x => Scalar.isFinite x = true)
    (hatan2 : f.Calls .atan2 → ∀ y x : α, Scalar.isNaN y = false → Scalar.isNaN x = false →
      Scalar.isFinite (Scalar.atan2 y x) = true) :
    (f.AggregatesKeep (fun x => Scalar.isNaN x = false) env →
      ∀ x, f.evaluate env = .ok (.number x) → Scalar.isNaN x = false) ∧
    ((∀ t ∈ ts, ¬ t.SpellsInfinity α) → f.AggregatesKeep (fun x => Scalar.isFinite x = true) env →
      ∀ x, f.evaluate env = .ok (.number x) → Scalar.isFinite x = true) := by
  constructor
  · intro haggregates x hx
    have hdefined : ∀ n v, env n = some v → v.Holds fun x => Scalar.isNaN x = false :=
      fun n v hv y hy => Scalar.isNaN_of_isFinite (henv n v hv y hy)
    have hnumbers : ∀ y, Occurs (.number y) f → Scalar.isNaN y = false := by
      intro y hy
      obtain ⟨t, ht, hspell⟩ := spelled_of_parse hlex hparse hy
      exact Token.isNaN_of_spelled hlex ht hspell
    have harc : f.Calls .atan2 → ∀ y x : α, Scalar.isNaN y = false → Scalar.isNaN x = false →
        Scalar.isNaN (Scalar.atan2 y x) = false :=
      fun hcall y x hy hx => Scalar.isNaN_of_isFinite (hatan2 hcall y x hy hx)
    exact holds_evaluate kept_defined hdefined ⟨hnumbers, harc, haggregates⟩ hx x rfl
  · intro hsource haggregates x hx
    have hnumbers : ∀ y, Occurs (.number y) f → Scalar.isFinite y = true := by
      intro y hy
      obtain ⟨t, ht, hspell⟩ := spelled_of_parse hlex hparse hy
      exact Token.isFinite_of_spelled hlex ht hspell (hsource t ht)
    have harc : f.Calls .atan2 → ∀ y x : α, Scalar.isFinite y = true → Scalar.isFinite x = true →
        Scalar.isFinite (Scalar.atan2 y x) = true :=
      fun hcall y x hy hx =>
        hatan2 hcall y x (Scalar.isNaN_of_isFinite hy) (Scalar.isNaN_of_isFinite hx)
    exact holds_evaluate kept_finite henv ⟨hnumbers, harc, haggregates⟩ hx x rfl

end Formula

end

/-! ## A product -/

namespace Formula

/-- The tokens of `product(a, a)`. -/
def squareTokens : List Token :=
  [⟨.name, "product", 0⟩, ⟨.opening, "(", 7⟩, ⟨.name, "a", 8⟩, ⟨.comma, ",", 9⟩, ⟨.name, "a", 11⟩,
    ⟨.closing, ")", 12⟩]

/-- The product of a name with itself. -/
def square : Formula Float := .call .product [.name "a", .name "a"]

theorem lex_square : Token.lex "product(a, a)" = .ok squareTokens := by cbv

theorem parse_square : parse "product(a, a)" = .ok square := by
  rw [parse_eq_ok lex_square, reads_iff_isSum]
  have hname : isBuiltinName "a" = false := by decide
  have hsecond : AreParts [⟨.name, "a", 11⟩, ⟨.closing, ")", 12⟩]
      [(.name "a" : Formula Float)] [] :=
    .last (isSum_name (by simp [NotOpened]) hname) rfl
  have hfirst : AreParts (squareTokens.drop 2) [(.name "a" : Formula Float), .name "a"] [] :=
    .more (isSum_name (by simp [NotOpened]) hname) rfl hsecond
  have hcall : IsAtom squareTokens square [] :=
    .call rfl (by decide) rfl (.some hfirst) rfl
  exact .term (.factor (.power (.atom hcall)))

theorem evaluate_square_one :
    ∃ ts f, Token.lex "product(a, a)" = .ok ts ∧ parse "product(a, a)" = .ok f ∧
      (∀ t ∈ ts, ¬ t.SpellsInfinity Float) ∧
      f.AggregatesKeep (fun x => Scalar.isFinite x = true) (fun _ => some (.number 1)) ∧
      ∀ x : Float, f.evaluate (fun _ => some (.number 1)) = .ok (.number x) →
        Scalar.isFinite x = true := by
  have hsource : ∀ t ∈ squareTokens, ¬ t.SpellsInfinity Float := by
    have hplain : ∀ t ∈ squareTokens, t.text ≠ "inf" ∧ t.kind ≠ .number := by decide
    rintro t ht (⟨-, htext⟩ | ⟨hkind, -⟩)
    · exact (hplain t ht).1 htext
    · exact (hplain t ht).2 hkind
  have henv : ∀ (_ : String) (v : Value Float), some (Value.number (1 : Float)) = some v →
      v.Holds fun x => Scalar.isFinite x = true := by
    rintro n v ⟨⟩
    exact Value.holds_number.2 (by decide)
  have haggregates : square.AggregatesKeep (fun x => Scalar.isFinite x = true)
      (fun _ => some (.number 1)) := by
    intro fn args hfn hoccurs vs hvs hall x hx
    rcases occurs_call.1 hoccurs with h | ⟨a, ha, h⟩
    · cases h
      cases hvs
      cases hx
      decide +kernel
    · rcases List.mem_pair.1 ha with rfl | rfl <;> cases occurs_name.1 h
  have hatan2 : square.Calls .atan2 → ∀ y x : Float, Scalar.isNaN y = false →
      Scalar.isNaN x = false → Scalar.isFinite (Scalar.atan2 y x) = true := by
    rintro ⟨args, hoccurs⟩
    rcases occurs_call.1 hoccurs with h | ⟨a, ha, h⟩
    · cases h
    · rcases List.mem_pair.1 ha with rfl | rfl <;> cases occurs_name.1 h
  have hguarded := evaluate_guarded lex_square parse_square henv hatan2
  exact ⟨squareTokens, square, lex_square, parse_square, hsource, haggregates,
    hguarded.2 hsource haggregates⟩

/-- A product overflows in silence. -/
theorem evaluate_overflow :
    parse "product(a, a)" = .ok square ∧ Scalar.isFinite (1e200 : Float) = true ∧
      square.evaluate (fun _ => some (.number 1e200)) = .ok (.number Scalar.infinity) := by
  have hproduct : (1 : Float) * 1e200 * 1e200 = Scalar.infinity := by decide +kernel
  refine ⟨parse_square, by decide +kernel, ?_⟩
  show Except.ok (Value.number ((1 : Float) * 1e200 * 1e200)) = _
  rw [hproduct]

end Formula

end FuzzyInference
