import FuzzyInference.Formula.Evaluate
import FuzzyInference.Proofs.Error.Result
import Mathlib.Logic.Relation

/-!
# Parts of formulas

A formula is put together from its operands, these from theirs, and so on down
to numbers and names. It is evaluated from the inside out, and of the values of
names it reads those that it mentions.

Results:

* `mem_names_iff`: the names of a formula are the ones that occur in it.
* `evaluate_congr`: the value of a formula depends on the names it mentions.
-/

namespace FuzzyInference.Formula

variable {α : Type}

/-- The formulas that a formula is put together from. -/
inductive IsOperand : Formula α → Formula α → Prop
  | signed (s : Sign) (f : Formula α) : IsOperand f (.sign s f)
  | left (op : Operator) (l r : Formula α) : IsOperand l (.binary op l r)
  | right (op : Operator) (l r : Formula α) : IsOperand r (.binary op l r)
  | argument (fn : Function) {args : List (Formula α)} {a : Formula α} (h : a ∈ args) :
    IsOperand a (.call fn args)

/-- A formula is another one or a part of it, at any depth. -/
def Occurs (p f : Formula α) : Prop := Relation.ReflTransGen IsOperand p f

theorem Occurs.refl (f : Formula α) : Occurs f f := Relation.ReflTransGen.refl

theorem Occurs.of_operand {p g f : Formula α} (h : Occurs p g) (hg : IsOperand g f) : Occurs p f :=
  Relation.ReflTransGen.tail h hg

/-- A function is called somewhere in a formula. -/
def Calls (fn : Function) (f : Formula α) : Prop := ∃ args, Occurs (.call fn args) f

theorem Calls.of_operand {fn : Function} {g f : Formula α} (h : Calls fn g) (hg : IsOperand g f) :
    Calls fn f := by
  obtain ⟨args, hcall⟩ := h
  exact ⟨args, hcall.of_operand hg⟩

/-- What holds of every formula if its operands have it, holds of every formula. -/
@[elab_as_elim, induction_eliminator]
theorem induct {motive : Formula α → Prop} (number : ∀ value, motive (.number value))
    (name : ∀ n, motive (.name n)) (sign : ∀ s f, motive f → motive (.sign s f))
    (binary : ∀ op l r, motive l → motive r → motive (.binary op l r))
    (call : ∀ fn args, (∀ a ∈ args, motive a) → motive (.call fn args)) : ∀ f, motive f
  | .number value => number value
  | .name n => name n
  | .sign s f => sign s f (induct number name sign binary call f)
  | .binary op l r =>
    binary op l r (induct number name sign binary call l) (induct number name sign binary call r)
  | .call fn args => call fn args fun a _ => induct number name sign binary call a

/-! ## Occurrences -/

theorem occurs_iff {p f : Formula α} : Occurs p f ↔ p = f ∨ ∃ g, IsOperand g f ∧ Occurs p g := by
  unfold Occurs
  rw [Relation.ReflTransGen.cases_tail_iff, eq_comm]
  exact or_congr_right (exists_congr fun g => and_comm)

/-- Nothing but itself occurs in a formula without operands. -/
theorem occurs_leaf {p f : Formula α} (hleaf : ∀ g, ¬ IsOperand g f) : Occurs p f ↔ p = f := by
  rw [occurs_iff]
  constructor
  · rintro (h | ⟨g, hg, -⟩)
    · exact h
    · exact absurd hg (hleaf g)
  · exact .inl

@[simp] theorem occurs_number {p : Formula α} {value : α} :
    Occurs p (.number value) ↔ p = .number value :=
  occurs_leaf nofun

@[simp] theorem occurs_name {p : Formula α} {n : String} : Occurs p (.name n) ↔ p = .name n :=
  occurs_leaf nofun

@[simp] theorem occurs_sign {p f : Formula α} {s : Sign} :
    Occurs p (.sign s f) ↔ p = .sign s f ∨ Occurs p f := by
  rw [occurs_iff]
  apply or_congr_right
  constructor
  · rintro ⟨g, hg, h⟩
    cases hg
    exact h
  · exact fun h => ⟨f, .signed s f, h⟩

@[simp] theorem occurs_binary {p l r : Formula α} {op : Operator} :
    Occurs p (.binary op l r) ↔ p = .binary op l r ∨ Occurs p l ∨ Occurs p r := by
  rw [occurs_iff]
  apply or_congr_right
  constructor
  · rintro ⟨g, hg, h⟩
    cases hg with
    | left => exact .inl h
    | right => exact .inr h
  · rintro (h | h)
    · exact ⟨l, .left op l r, h⟩
    · exact ⟨r, .right op l r, h⟩

@[simp] theorem occurs_call {p : Formula α} {fn : Function} {args : List (Formula α)} :
    Occurs p (.call fn args) ↔ p = .call fn args ∨ ∃ a ∈ args, Occurs p a := by
  rw [occurs_iff]
  apply or_congr_right
  constructor
  · rintro ⟨g, hg, h⟩
    cases hg with
    | argument _ hmem => exact ⟨g, hmem, h⟩
  · rintro ⟨a, hmem, h⟩
    exact ⟨a, .argument fn hmem, h⟩

/-! ## Names -/

theorem mem_mentionsOf {n : String} {fs : List (Formula α)} :
    n ∈ mentionsOf fs ↔ ∃ f ∈ fs, n ∈ f.mentions := by
  induction fs with
  | nil => simp [mentionsOf]
  | cons f fs ih => simp [mentionsOf, ih]

theorem mem_firsts {n : String} {seen ns : List String} :
    n ∈ firsts seen ns ↔ n ∈ ns ∧ n ∉ seen := by
  induction ns generalizing seen with
  | nil => simp [firsts]
  | cons m ns ih =>
    rw [firsts]
    by_cases hseen : m ∈ seen
    · rw [if_pos hseen, ih, List.mem_cons]
      constructor
      · rintro ⟨h, h'⟩
        exact ⟨.inr h, h'⟩
      · rintro ⟨rfl | h, h'⟩
        · exact absurd hseen h'
        · exact ⟨h, h'⟩
    · rw [if_neg hseen, List.mem_cons, ih, List.mem_cons, List.mem_cons]
      constructor
      · rintro (rfl | ⟨h, h'⟩)
        · exact ⟨.inl rfl, hseen⟩
        · exact ⟨.inr h, fun hmem => h' (.inr hmem)⟩
      · rintro ⟨rfl | h, h'⟩
        · exact .inl rfl
        · by_cases heq : n = m
          · exact .inl heq
          · exact .inr ⟨h, fun hmem => hmem.elim heq h'⟩

/-- The names of a formula are the ones it mentions. -/
theorem mem_names_iff {n : String} {f : Formula α} : n ∈ f.names ↔ n ∈ f.mentions := by
  rw [names, mem_firsts]
  exact and_iff_left List.not_mem_nil

/-! ## Evaluation -/

section

variable [Scalar α] {env env' : String → Option (Value α)}

theorem evaluateAll_eq_mapM (fs : List (Formula α)) :
    evaluateAll env fs = fs.mapM (evaluate env) := by
  induction fs with
  | nil => rfl
  | cons f fs ih => rw [evaluateAll, List.mapM_cons, ih]

theorem evaluateAll_congr {fs : List (Formula α)} (h : ∀ f ∈ fs, f.evaluate env = f.evaluate env') :
    evaluateAll env fs = evaluateAll env' fs := by
  induction fs with
  | nil => rfl
  | cons f fs ih =>
    rw [List.forall_mem_cons] at h
    rw [evaluateAll, evaluateAll, h.1, ih h.2]

/-- Environments that agree on the names of a formula give it one value. -/
theorem evaluate_congr {f : Formula α} (h : ∀ n ∈ f.mentions, env n = env' n) :
    f.evaluate env = f.evaluate env' := by
  induction f with
  | number value => rfl
  | name n => rw [evaluate, evaluate, h n (by simp [mentions])]
  | sign s f ih =>
    rw [mentions] at h
    rw [evaluate, evaluate, ih h]
  | binary op l r ihl ihr =>
    rw [mentions] at h
    have hl := ihl fun n hn => h n (List.mem_append_left _ hn)
    have hr := ihr fun n hn => h n (List.mem_append_right _ hn)
    rw [evaluate, evaluate, hl, hr]
  | call fn args ih =>
    rw [mentions] at h
    have hargs : ∀ a ∈ args, a.evaluate env = a.evaluate env' := by
      intro a ha
      apply ih a ha
      intro n hn
      exact h n (mem_mentionsOf.2 ⟨a, ha, hn⟩)
    rw [evaluate, evaluate, evaluateAll_congr hargs]

end

end FuzzyInference.Formula
