import FuzzyInference.Proofs.Document.Curve
import FuzzyInference.Proofs.Scalar.Closeness
import FuzzyInference.Proofs.Scalar.Order
import FuzzyInference.Proofs.Variable.Store

/-!
# Variables that equal themselves

Equality follows the numbers: an undefined one differs from itself, and a point
with an infinite coordinate does too, because points are compared by differences.
A variable of finite numbers equals itself.

Results:

* `Variable.same_self`: variables of finite numbers equal themselves.
* `VariableStore.same_iff_of_toList`: stores with the same variables in order are
  equal exactly if each variable equals itself.
-/

namespace FuzzyInference

/-! ## Maps -/

theorem OrderedMap.agrees_self {β : Type} {eq : β → β → Bool} {m : OrderedMap β} :
    m.agrees eq m = true ↔ ∀ e ∈ m.entries, eq e.2 e.2 = true := by
  rw [agrees, BEq.rfl, Bool.true_and, List.all_eq_true]
  refine forall₂_congr fun e he => ?_
  have hentry : m.get? e.1 = some e.2 := get?_eq_some_iff.2 he
  simp only [hentry]

theorem all_zip_self {β : Type} {eq : β → β → Bool} {xs : List β} :
    ((xs.zip xs).all fun (a, b) => eq a b) = true ↔ ∀ x ∈ xs, eq x x = true := by
  induction xs with
  | nil => simp
  | cons x xs ih =>
    rw [List.zip_cons_cons, List.all_cons, Bool.and_eq_true, ih, List.forall_mem_cons]

variable {α : Type} [Scalar α]

theorem beq_self_of_isFinite [ReflexiveNumbers α] {x : α} (h : Scalar.isFinite x = true) :
    (x == x) = true :=
  ReflexiveNumbers.beq_self x (Scalar.isNaN_of_isFinite h)

/-! ## Curves -/

theorem Point.same_self [CloseNumbers α] {p : Point α} (h : p.All Finite) : p.same p = true := by
  rw [same, Bool.and_eq_true]
  exact ⟨CloseNumbers.close_self p.x h.1, CloseNumbers.close_self p.y h.2⟩

variable [ReflexiveNumbers α] [CloseNumbers α]

theorem Segment.same_self {s : Segment α} (h : s.All Finite) : s.same s = true := by
  cases s with
  | linear l r => simp [same, Point.same_self h.1, Point.same_self h.2]
  | step l r y =>
    simp [same, Point.same_self h.1, Point.same_self h.2.1, beq_self_of_isFinite h.2.2]
  | bezier l r c => simp [same, Point.same_self h.1, Point.same_self h.2.1, Point.same_self h.2.2]

theorem Curve.same_self {c : Curve α} (h : c.All Finite) : c.same c = true := by
  cases c with
  | linear l r => simp [same, Point.same_self h.1, Point.same_self h.2]
  | triangle l a r => simp [same, Point.same_self h.1, Point.same_self h.2.1, Point.same_self h.2.2]
  | trapezoid p q r s =>
    simp [same, Point.same_self h.1, Point.same_self h.2.1, Point.same_self h.2.2.1,
      Point.same_self h.2.2.2]
  | gaussian | sigmoid | polynomial | cubic | step =>
    simp only [All, Finite] at h
    simp [same, beq_self_of_isFinite, h]
  | piecewise segments =>
    rw [same, BEq.rfl, Bool.true_and]
    exact all_zip_self.2 fun s hs => Segment.same_self (h s hs)
  | lookup ys =>
    rw [same, BEq.rfl, Bool.true_and]
    exact all_zip_self.2 fun y hy => beq_self_of_isFinite (h y hy)

/-! ## Variables -/

theorem Variable.same_self {v : Variable α} (h : v.All Finite) : v.same v = true := by
  have hcurves : v.curves.agrees Curve.same v.curves = true :=
    OrderedMap.agrees_self.2 fun e he => Curve.same_self (h.2.2 e he)
  rw [same, BEq.rfl, beq_self_of_isFinite h.1, beq_self_of_isFinite h.2.1, hcurves]
  rfl

omit [ReflexiveNumbers α] [CloseNumbers α] in
/-- Stores with the same variables in order are equal exactly if each variable
    equals itself. -/
theorem VariableStore.same_iff_of_toList {s t : VariableStore α} (hs : s.IsNamed) (ht : t.IsNamed)
    (h : t.toList = s.toList) : t.same s = true ↔ ∀ v ∈ s.toList, v.same v = true := by
  have hnames : t.names = s.names := by rw [← ht.map_name, ← hs.map_name, h]
  have hsize : (t.size == s.size) = true := by
    rw [beq_iff_eq]
    have hlength := congrArg List.length hnames
    rwa [names, names, OrderedMap.keys, OrderedMap.keys, List.length_map,
      List.length_map] at hlength
  rw [same, hsize, Bool.true_and, h]
  exact all_zip_self

end FuzzyInference
