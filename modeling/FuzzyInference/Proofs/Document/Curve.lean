import FuzzyInference.Document.Curve
import FuzzyInference.Proofs.Document.Value
import FuzzyInference.Proofs.Variable.Store

/-!
# Documents of curves and variables read back

A curve whose numbers are all finite is read back from its document with the same numbers,
piecewise curves segment by segment. In which order the members of the document stand does not
matter. A variable with finite numbers is read back with its memberships in the order of the
document. A store is read back as a store of the same variables in the same order, with keys of
its own.

Results:

* `Segment.ofDocument?_arrange`: segments are read back.
* `Curve.ofDocument?_arrange`: curves are read back.
* `Variable.ofDocument?_arrange`: variables are read back.
* `VariableStore.ofDocument?_arrange`: what is read of a store.
-/

namespace FuzzyInference

variable {α : Type}

/-! ## Statements about all numbers -/

/-- Both coordinates satisfy a predicate. -/
def Point.All (P : α → Prop) (p : Point α) : Prop := P p.x ∧ P p.y

/-- Every number of a segment satisfies a predicate. -/
def Segment.All (P : α → Prop) : Segment α → Prop
  | .linear l r => l.All P ∧ r.All P
  | .step l r h => l.All P ∧ r.All P ∧ P h
  | .bezier l r c => l.All P ∧ r.All P ∧ c.All P

/-- Every number of a curve satisfies a predicate, and a number of steps has 32
    bits. -/
def Curve.All (P : α → Prop) : Curve α → Prop
  | .linear l r => l.All P ∧ r.All P
  | .gaussian h c s y => P h ∧ P c ∧ P s ∧ P y
  | .sigmoid m h s y => P m ∧ P h ∧ P s ∧ P y
  | .triangle l a r => l.All P ∧ a.All P ∧ r.All P
  | .trapezoid p q r s => p.All P ∧ q.All P ∧ r.All P ∧ s.All P
  | .step n l r a b => n < Nat.pow 2 32 ∧ P l ∧ P r ∧ P a ∧ P b
  | .polynomial a b c x => P a ∧ P b ∧ P c ∧ P x
  | .cubic a b c d x => P a ∧ P b ∧ P c ∧ P d ∧ P x
  | .piecewise segments => ∀ s ∈ segments, s.All P
  | .lookup ys => ∀ y ∈ ys, P y

section

variable {P : α → Prop} [DecidablePred P]

instance Point.decidableAll (p : Point α) : Decidable (p.All P) :=
  inferInstanceAs (Decidable (_ ∧ _))

instance Segment.decidableAll : (s : Segment α) → Decidable (s.All P)
  | .linear .. => inferInstanceAs (Decidable (_ ∧ _))
  | .step .. => inferInstanceAs (Decidable (_ ∧ _ ∧ _))
  | .bezier .. => inferInstanceAs (Decidable (_ ∧ _ ∧ _))

instance Curve.decidableAll : (c : Curve α) → Decidable (c.All P)
  | .linear .. => inferInstanceAs (Decidable (_ ∧ _))
  | .gaussian .. => inferInstanceAs (Decidable (_ ∧ _ ∧ _ ∧ _))
  | .sigmoid .. => inferInstanceAs (Decidable (_ ∧ _ ∧ _ ∧ _))
  | .triangle .. => inferInstanceAs (Decidable (_ ∧ _ ∧ _))
  | .trapezoid .. => inferInstanceAs (Decidable (_ ∧ _ ∧ _ ∧ _))
  | .step .. => inferInstanceAs (Decidable (_ ∧ _ ∧ _ ∧ _ ∧ _))
  | .polynomial .. => inferInstanceAs (Decidable (_ ∧ _ ∧ _ ∧ _))
  | .cubic .. => inferInstanceAs (Decidable (_ ∧ _ ∧ _ ∧ _ ∧ _))
  | .piecewise segments => inferInstanceAs (Decidable (∀ s ∈ segments, s.All P))
  | .lookup ys => inferInstanceAs (Decidable (∀ y ∈ ys, P y))

end

variable {P Q : α → Prop}

theorem Point.All.imp (hPQ : ∀ x, P x → Q x) {p : Point α} (h : p.All P) : p.All Q :=
  ⟨hPQ _ h.1, hPQ _ h.2⟩

theorem Segment.All.imp (hPQ : ∀ x, P x → Q x) {s : Segment α} (h : s.All P) : s.All Q := by
  cases s with
  | linear l r => exact ⟨h.1.imp hPQ, h.2.imp hPQ⟩
  | step l r y => exact ⟨h.1.imp hPQ, h.2.1.imp hPQ, hPQ y h.2.2⟩
  | bezier l r c => exact ⟨h.1.imp hPQ, h.2.1.imp hPQ, h.2.2.imp hPQ⟩

theorem Curve.All.imp (hPQ : ∀ x, P x → Q x) {c : Curve α} (h : c.All P) : c.All Q := by
  cases c with
  | piecewise segments => exact fun s hs => (h s hs).imp hPQ
  | lookup ys => exact fun y hy => hPQ y (h y hy)
  | _ =>
    simp only [All] at h ⊢
    grind [Point.All.imp]

variable [Scalar α] {before : String → String → Bool}

/-! ## Points and segments -/

theorem Point.readable_toDocument (p : Point α) : p.toDocument.readable = true := by
  simp [Point.toDocument, Json.readable, Json.readableMembers]

theorem Point.ofDocument?_arrange {p : Point α} (h : p.All Finite) :
    ofDocument? (p.toDocument.arrange before) = some p := by
  rw [ofDocument?, Json.fields?_arrange]
  simp [toDocument, Json.fields?, Json.countOf, Json.member?, Json.required,
    Json.toScalar?_ofScalar, h.1, h.2]

namespace Segment

theorem readable_toDocument (s : Segment α) : s.toDocument.readable = true := by
  cases s <;>
    simp [toDocument, Json.tagged, Json.readable, Json.readableMembers, Point.readable_toDocument]

theorem ofDocument?_arrange {s : Segment α} (h : s.All Finite) (place : Json.Place) :
    ofDocument? place (s.toDocument.arrange before) = some s := by
  have hr := s.readable_toDocument
  cases s <;>
  · rw [toDocument] at hr ⊢
    obtain ⟨k, hk, hfields⟩ := Json.tagged?_arrange before place cases (by decide) (by simp) hr
    rw [ofDocument?, hk]
    simp only [All] at h
    simp only [Option.bind_eq_bind, Option.bind_some, ofCase?, hfields]
    simp [Json.fields?, Json.countOf, Json.member?, Json.required, Json.toScalar?_ofScalar,
      Point.ofDocument?_arrange, h]

end Segment

/-! ## Curves -/

namespace Curve

theorem readable_toDocument (c : Curve α) : c.toDocument.readable = true := by
  cases c <;>
    simp [toDocument, documentFields, Json.tagged, Json.readable, Json.readableMembers,
      Json.readableItems, Json.readableItems_map, Point.readable_toDocument,
      Segment.readable_toDocument]

/-- The fields of a shape hold the curve. -/
theorem ofCase?_of_fields {c : Curve α} (h : c.All Finite) {k : Json α}
    (hfields : ∀ names, k.fields? names =
      ((Json.object c.documentFields).fields? names).map
        (List.map (Option.map (Json.arrange before)))) : ofCase? c.kind k = some c := by
  cases c with
  | trapezoid p q r s =>
    -- The four corners are written as an array, which is read as a list of any length.
    obtain ⟨hp, hq, hr, hs⟩ := h
    have hpoints : Json.toList? Point.ofDocument?
        ((Json.array ([p, q, r, s].map Point.toDocument)).arrange before) = some [p, q, r, s] :=
      Json.toList?_arrange_self (by simp [Point.ofDocument?_arrange, hp, hq, hr, hs])
    simp only [List.map_cons, List.map_nil] at hpoints
    simp only [ofCase?, kind, hfields]
    simp [documentFields, Json.fields?, Json.countOf, Json.member?, Json.required, hpoints]
  | step n l r a b =>
    obtain ⟨hn, hl, hr, ha, hb⟩ := h
    have hsteps : Json.toNat? 4294967296 (.int n : Json α) = some n := Json.toNat?_int hn
    simp only [ofCase?, kind, hfields]
    simp [documentFields, Json.fields?, Json.countOf, Json.member?, Json.required,
      scalarField, Json.toScalar?_ofScalar, hsteps, hl, hr, ha, hb]
  | piecewise segments =>
    have hsegments : Json.toList? (Segment.ofDocument? .inside)
        ((Json.array (segments.map Segment.toDocument)).arrange before) = some segments :=
      Json.toList?_arrange_self fun s hs => Segment.ofDocument?_arrange (h s hs) .inside
    simp only [ofCase?, kind, hfields]
    simp [documentFields, Json.fields?, Json.countOf, Json.member?, Json.required, hsegments]
  | lookup ys =>
    have hys : Json.toList? Json.toScalar? ((Json.array (ys.map Json.ofScalar)).arrange before) =
        some ys :=
      Json.toList?_arrange_self fun y hy => by
        rw [Json.arrange_ofScalar, Json.toScalar?_ofScalar (h y hy)]
    simp only [ofCase?, kind, hfields]
    simp [documentFields, Json.fields?, Json.countOf, Json.member?, Json.required, hys]
  | _ =>
    simp only [All] at h
    simp only [ofCase?, kind, hfields]
    simp [documentFields, Json.fields?, Json.countOf, Json.member?, Json.required,
      scalarField, pointField, Json.toScalar?_ofScalar, Point.ofDocument?_arrange, h]

theorem ofDocument?_arrange {c : Curve α} (h : c.All Finite) (before : String → String → Bool) :
    ofDocument? (c.toDocument.arrange before) = some c := by
  have hkind : c.kind ∈ cases := by cases c <;> simp [kind, Curve.cases]
  have htag : ∀ e ∈ c.documentFields, e.1 ≠ "type" := by cases c <;> simp [documentFields]
  obtain ⟨k, hk, hfields⟩ :=
    Json.tagged?_arrange before .outside cases hkind htag c.readable_toDocument
  rw [ofDocument?, toDocument, hk]
  exact ofCase?_of_fields h hfields

end Curve

/-! ## Variables -/

variable {α : Type}

/-- Every number of a variable and of its curves satisfies a predicate. -/
def Variable.All (P : α → Prop) (v : Variable α) : Prop :=
  P v.min ∧ P v.max ∧ ∀ e ∈ v.curves.entries, e.2.All P

instance Variable.decidableAll {P : α → Prop} [DecidablePred P] (v : Variable α) :
    Decidable (v.All P) :=
  inferInstanceAs (Decidable (P v.min ∧ P v.max ∧ ∀ e ∈ v.curves.entries, e.2.All P))

theorem Variable.All.imp {P Q : α → Prop} (hPQ : ∀ x, P x → Q x) {v : Variable α}
    (h : v.All P) : v.All Q :=
  ⟨hPQ _ h.1, hPQ _ h.2.1, fun e he => (h.2.2 e he).imp hPQ⟩

/-- A variable with its memberships in an order of their names. -/
def Variable.arrange (before : String → String → Bool) (v : Variable α) : Variable α :=
  { v with curves := v.curves.arrange before }

theorem Variable.arrange_always (v : Variable α) : v.arrange (fun _ _ => true) = v := by
  rw [arrange, OrderedMap.arrange_always]

variable [Scalar α]

theorem Variable.ofDocument?_arrange {v : Variable α} (h : v.All Finite)
    (before : String → String → Bool) :
    Variable.ofDocument? (v.toDocument.arrange before) = some (v.arrange before) := by
  obtain ⟨hmin, hmax, hcurves⟩ := h
  have hmap : Json.toMap? Curve.ofDocument?
      ((Json.ofMap Curve.toDocument v.curves).arrange before) =
      some (v.curves.arrange before) :=
    Json.toMap?_arrange_self fun e he => Curve.ofDocument?_arrange (hcurves e he) before
  rw [ofDocument?, Json.fields?_arrange]
  simp [toDocument, Json.fields?, Json.countOf, Json.member?, Json.required, Json.withDefault,
    Json.toString?, Json.toScalar?_ofScalar, hmin, hmax, hmap, arrange]

theorem VariableStore.ofDocument?_arrange {s : VariableStore α} (h : ∀ v ∈ s.toList, v.All Finite)
    (before : String → String → Bool) :
    VariableStore.ofDocument? (s.toDocument.arrange before) =
      some (.ofList (s.toList.map (Variable.arrange before))) := by
  have hlist : Json.toList? Variable.ofDocument? (s.toDocument.arrange before) =
      some (s.toList.map (Variable.arrange before)) :=
    Json.toList?_arrange fun v hv => Variable.ofDocument?_arrange (h v hv) before
  rw [VariableStore.ofDocument?, hlist, Option.map_some]

end FuzzyInference
