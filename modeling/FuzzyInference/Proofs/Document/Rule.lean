import FuzzyInference.Document.Rule
import FuzzyInference.Proofs.Document.Value
import FuzzyInference.Proofs.Rule.Parts

/-!
# Documents of conditions and rules read back

A condition is read back node by node, as deep as its document is nested. A rule
is read back with its condition as it was compiled. Only its table of queries
takes on the order of the document.

Results:

* `Expr.ofDocument?_arrange`: conditions are read back.
* `Rule.ofDocument?_arrange`: rules are read back.
-/

namespace FuzzyInference

variable {α : Type}

theorem LogicOp.ofName?_keyword (op : LogicOp) : ofName? op.keyword = some op := by cases op <;> rfl

theorem RuleFunction.ofName?_keyword (f : RuleFunction) : ofName? f.keyword = some f := by
  cases f <;> rfl

namespace Expr

/-! ## Constants -/

/-- Every constant of a condition satisfies a predicate. -/
def All (P : α → Prop) (e : Expr α) : Prop := ∀ value, Occurs (.constant value) e → P value

variable {P : α → Prop} {e l r : Expr α}

theorem All.of_operand (h : e.All P) {p : Expr α} (hp : IsOperand p e) : p.All P :=
  fun value hvalue => h value (hvalue.of_operand hp)

theorem All.constant {value : α} (h : (Expr.constant value).All P) : P value := h value (.refl _)

/-! ## Documents -/

variable [Scalar α]

theorem toDocuments_eq_map (es : List (Expr α)) : toDocuments es = es.map toDocument := by
  induction es with
  | nil => rfl
  | cons e es ih => rw [toDocuments, ih, List.map_cons]

theorem readable_toDocument (e : Expr α) : e.toDocument.readable = true := by
  induction e with
  | call f args ih =>
    rw [toDocument, toDocuments_eq_map]
    simp [Json.tagged, Json.readable, Json.readableMembers, Json.readableItems_map ih]
  | _ => simp_all [toDocument, Json.tagged, Json.readable, Json.readableMembers]

/-- A node is read from its fields, and its parts with the depth that is left. -/
theorem ofDocumentWithin?_tagged (before : String → String → Bool) (place : Json.Place) {c : String}
    {members : List (String × Json α)} (hc : c ∈ cases) (ht : ∀ e ∈ members, e.1 ≠ "node")
    (hr : (Json.tagged "node" c members).readable = true) {depth : Nat}
    (hdepth : (Json.tagged "node" c members).depth ≤ depth) :
    ∃ k left, Json.depthOfMembers members ≤ left ∧
      (∀ names, k.fields? names =
        ((Json.object members).fields? names).map (List.map (Option.map (Json.arrange before)))) ∧
      ofDocumentWithin? place depth ((Json.tagged "node" c members).arrange before) =
        ofCase? (ofDocumentWithin? .inside left) c k := by
  obtain ⟨k, hk, hfields⟩ := Json.tagged?_arrange before place cases hc ht hr
  simp only [Json.tagged, Json.depth, Json.depthOfMembers, Nat.zero_max] at hdepth
  obtain ⟨left, rfl⟩ : ∃ left, depth = left + 1 := ⟨depth - 1, by omega⟩
  refine ⟨k, left, Nat.le_of_succ_le_succ hdepth, hfields, ?_⟩
  rw [ofDocumentWithin?, hk]
  rfl

theorem ofDocumentWithin?_arrange (h : e.All Finite) {depth : Nat}
    (hdepth : e.toDocument.depth ≤ depth) (before : String → String → Bool) (place : Json.Place) :
    ofDocumentWithin? place depth (e.toDocument.arrange before) = some e := by
  have hr := e.readable_toDocument
  -- Only the whole condition stands outside of a union, and its parts have less depth left to
  -- be read in.
  induction e generalizing depth place with
  | constant value =>
    rw [toDocument] at hr hdepth ⊢
    obtain ⟨k, left, -, hfields, hread⟩ :=
      ofDocumentWithin?_tagged before place (by decide) (by simp) hr hdepth
    rw [hread]
    simp only [ofCase?, hfields]
    simp [Json.fields?, Json.countOf, Json.member?, Json.required,
      Json.toScalar?_ofScalar h.constant]
  | query input membership =>
    rw [toDocument] at hr hdepth ⊢
    obtain ⟨k, left, -, hfields, hread⟩ :=
      ofDocumentWithin?_tagged before place (by decide) (by simp) hr hdepth
    rw [hread]
    simp only [ofCase?, hfields]
    simp [Json.fields?, Json.countOf, Json.member?, Json.required, Json.toString?]
  | negation e ih =>
    rw [toDocument] at hr hdepth ⊢
    obtain ⟨k, left, hleft, hfields, hread⟩ :=
      ofDocumentWithin?_tagged before place (by decide) (by simp) hr hdepth
    simp only [Json.depthOfMembers, Nat.max_zero] at hleft
    have he := ih (h.of_operand (.negated e)) hleft .inside e.readable_toDocument
    rw [hread]
    simp only [ofCase?, hfields]
    simp [Json.fields?, Json.countOf, Json.member?, Json.required, he]
  | logic op l r ihl ihr =>
    rw [toDocument] at hr hdepth ⊢
    obtain ⟨k, left, hleft, hfields, hread⟩ :=
      ofDocumentWithin?_tagged before place (by decide) (by simp) hr hdepth
    simp only [Json.depthOfMembers, Json.depth, Nat.zero_max, Nat.max_zero, Nat.max_le] at hleft
    have hl := ihl (h.of_operand (.left op l r)) hleft.1 .inside l.readable_toDocument
    have hr := ihr (h.of_operand (.right op l r)) hleft.2 .inside r.readable_toDocument
    rw [hread]
    simp only [ofCase?, hfields]
    simp [Json.fields?, Json.countOf, Json.member?, Json.required, Json.choice?,
      op.ofName?_keyword, hl, hr]
  | call f args ih =>
    rw [toDocument, toDocuments_eq_map] at hr hdepth ⊢
    obtain ⟨k, left, hleft, hfields, hread⟩ :=
      ofDocumentWithin?_tagged before place (by decide) (by simp) hr hdepth
    simp only [Json.depthOfMembers, Json.depth, Nat.zero_max, Nat.max_zero] at hleft
    have hargs : Json.toList? (ofDocumentWithin? .inside left)
        ((Json.array (args.map toDocument)).arrange before) = some args := by
      refine Json.toList?_arrange_self fun a ha => ?_
      have hdeep := Json.depth_le_of_mem (List.mem_map_of_mem (f := toDocument) ha)
      exact ih a ha (h.of_operand (.argument f ha)) (by omega) .inside a.readable_toDocument
    rw [hread]
    simp only [ofCase?, hfields]
    simp [Json.fields?, Json.countOf, Json.member?, Json.required, Json.choice?,
      f.ofName?_keyword, hargs]

theorem ofDocument?_arrange (h : e.All Finite) (before : String → String → Bool) :
    ofDocument? (e.toDocument.arrange before) = some e :=
  ofDocumentWithin?_arrange h (Nat.le_of_eq (Json.depth_arrange _).symm) before .outside

end Expr

/-- A rule with its table of queries in an order of the inputs. -/
def Rule.arrange (before : String → String → Bool) (r : Rule α) : Rule α :=
  { r with queries := r.queries.arrange before }

theorem Rule.ofDocument?_arrange [Scalar α] {r : Rule α} (h : r.condition.All Finite)
    (before : String → String → Bool) :
    ofDocument? (r.toDocument.arrange before) = some (r.arrange before) := by
  have hcondition := Expr.ofDocument?_arrange h before
  have hqueries : Json.toMap? Json.toString?
      ((Json.ofMap Json.string r.queries : Json α).arrange before) =
      some (r.queries.arrange before) :=
    Json.toMap?_arrange_self fun _ _ => rfl
  have hfields : r.toDocument.fields?
      ["source", "condition", "result", "result_membership", "queries"] =
      some [some (.string r.source), some r.condition.toDocument, some (.string r.result),
        some (.string r.membership), some (.ofMap .string r.queries)] := rfl
  rw [ofDocument?, Json.fields?_arrange, hfields]
  simp [Json.required, Json.toString?, hcondition, hqueries, arrange]

end FuzzyInference
