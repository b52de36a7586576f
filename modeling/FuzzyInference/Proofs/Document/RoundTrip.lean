import FuzzyInference.Proofs.Document.Curve
import FuzzyInference.Proofs.Document.Rule
import FuzzyInference.Proofs.Document.Value
import FuzzyInference.Scalar.Binary64

/-!
# Unions read back from values

A document that is handed on as a value has its members sorted. The unions are
read back from such documents with the same numbers: curves, segments,
conditions with the rules around them, and values with their sentinels.

Results:

* `readBack_sorted`: what is read from sorted documents.
-/

namespace FuzzyInference

section

variable {α : Type} [Scalar α]

/-- Whatever is read from the document of a value is a sentinel exactly if the value
    was one, finite or not: a number that is not finite is not read at all. -/
theorem Value.isSentinel_of_sorted {v w : Value α} (h : ofDocument? v.toDocument.sorted = some w) :
    w.isSentinel = v.isSentinel := by
  rw [isSentinel_of_ofDocument? h]
  cases v with
  | sentinel s =>
    rw [toDocument, Json.sorted, toScalar?_toDocument_sentinel]
    rfl
  | number x =>
    rw [toDocument, Json.sorted, Json.arrange_ofScalar] at h ⊢
    unfold Json.ofScalar at h ⊢
    split at h
    · rw [if_pos ‹_›]
      rfl
    · cases h

/-- Documents with finite numbers are read back, with the same numbers. Only the
    queries of a rule may stand in another order. -/
theorem readBack_sorted :
    (∀ c : Curve α, c.All Finite → Curve.ofDocument? c.toDocument.sorted = some c) ∧
    (∀ s : Segment α, s.All Finite → Segment.ofDocument? .outside s.toDocument.sorted = some s) ∧
    (∀ e : Expr α, e.All Finite → Expr.ofDocument? e.toDocument.sorted = some e) ∧
    (∀ r : Rule α, r.condition.All Finite →
      ∃ queries, Rule.ofDocument? r.toDocument.sorted = some { r with queries } ∧
        queries.entries.Perm r.queries.entries) ∧
    (∀ s : Sentinel α, s.All Finite → Sentinel.ofDocument? s.toDocument.sorted = some s) ∧
    (∀ v : Value α, v.All Finite → Value.ofDocument? v.toDocument.sorted = some v) ∧
    (∀ v w : Value α, Value.ofDocument? v.toDocument.sorted = some w →
      w.isSentinel = v.isSentinel) ∧
    ∀ (j : Json α) (v : Value α), Value.ofDocument? j = some v →
      (v.isSentinel ↔ j.toScalar? = none) := by
  refine ⟨fun c hc => Curve.ofDocument?_arrange hc _,
    fun s hs => Segment.ofDocument?_arrange hs .outside, fun e he => Expr.ofDocument?_arrange he _,
    fun r hr => ?_, fun s hs => Sentinel.ofDocument?_arrange hs,
    fun v hv => Value.ofDocument?_arrange hv, fun v w h => Value.isSentinel_of_sorted h,
    fun j v h => ?_⟩
  · exact ⟨_, Rule.ofDocument?_arrange hr _, r.queries.entries_arrange_perm⟩
  · rw [Value.isSentinel_of_ofDocument? h, Option.isNone_iff_eq_none]

end

/-- A curve of every kind of segment. -/
def ridge : Curve Float :=
  .piecewise [.linear ⟨0, 0⟩ ⟨0.25, 1⟩, .step ⟨0.25, 1⟩ ⟨0.5, 0.5⟩ 0.75,
    .bezier ⟨0.5, 0.5⟩ ⟨1, 0⟩ ⟨0.7, 0.1⟩]

/-- A rule with a constant, a call and a complement, whose queries do not stand in
    the order of their names. -/
def ridgeRule : Rule Float :=
  ⟨"IF NOT GAMMA(0.3, slope IS steep) OR rain IS heavy THEN erosion IS high",
    .logic .or (.negation (.call .gamma [.constant 0.3, .query "slope" "steep"]))
      (.query "rain" "heavy"),
    "erosion", "high", .ofList [("slope", "steep"), ("rain", "heavy")]⟩

theorem all_ridgeRule : ridgeRule.condition.All Finite := by
  intro value hvalue
  simp only [ridgeRule, Expr.occurs_iff, Expr.within_logic, Expr.within_negation, Expr.within_call,
    Expr.within_query, Expr.within_constant, List.mem_cons, List.not_mem_nil, or_false,
    exists_eq_or_imp,
    exists_eq_left, reduceCtorEq, false_or, Expr.constant.injEq] at hvalue
  rw [hvalue]
  decide

/-- Curves of segments, nested conditions, rules and sentinels are read back as they
    were. -/
theorem readBack_ridge :
    ridge.All Finite ∧ ridgeRule.condition.All Finite ∧
      Curve.ofDocument? ridge.toDocument.sorted = some ridge ∧
      Segment.ofDocument? .outside
        (Segment.step ⟨0, 1⟩ ⟨0.5, 0.5⟩ (0.75 : Float)).toDocument.sorted =
        some (.step ⟨0, 1⟩ ⟨0.5, 0.5⟩ 0.75) ∧
      Expr.ofDocument? ridgeRule.condition.toDocument.sorted = some ridgeRule.condition ∧
      (∃ queries, Rule.ofDocument? ridgeRule.toDocument.sorted = some { ridgeRule with queries } ∧
        queries.entries.Perm ridgeRule.queries.entries) ∧
      Value.ofDocument? (Value.number (0.1 : Float)).toDocument.sorted = some (.number 0.1) ∧
      Value.ofDocument? (Value.sentinel ⟨true, some (0.2 : Float)⟩).toDocument.sorted =
        some (.sentinel ⟨true, some 0.2⟩) := by
  have hridge : ridge.All Finite := by decide
  have hrule := all_ridgeRule
  obtain ⟨curve, segment, condition, rule, sentinel, value, -, -⟩ := readBack_sorted (α := Float)
  exact ⟨hridge, hrule, curve ridge hridge, segment _ (by decide), condition _ hrule, rule _ hrule,
    value _ (by decide), value _ (by decide)⟩

end FuzzyInference
