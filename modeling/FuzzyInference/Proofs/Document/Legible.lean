import FuzzyInference.Proofs.Document.Curve
import FuzzyInference.Proofs.Json.RoundTrip
import FuzzyInference.Scalar.Binary64

/-!
# Documents with faithful numbers

The documents of curves and variables are nested a few levels deep and hold
nothing but names, step counts and numbers. So their text gives them back if it
gives back every finite number in them.

Results:

* `Curve.legible_toDocument`: the documents of curves.
* `Variable.legible_toDocument`: the documents of variables.
-/

namespace FuzzyInference

/-- A finite number that its text gives back. -/
def Faithful (x : Float) : Prop := Finite x ∧ Json.ReadsBack x

theorem faithful_zero : Faithful 0 := by
  have htext : FloatText.document.write 0 = "0.0" := by decide +kernel
  refine ⟨by decide, ⟨false, ['0'], ['0'], none⟩, ?_, rfl⟩
  rw [htext]
  rfl

theorem faithful_one : Faithful 1 := by
  have htext : FloatText.document.write 1 = "1.0" := by decide +kernel
  refine ⟨by decide, ⟨false, ['1'], ['0'], none⟩, ?_, rfl⟩
  rw [htext]
  rfl

variable {n : Nat}

namespace Json

theorem legible_ofScalar {x : Float} (h : Faithful x) : Legible n (ofScalar x) := by
  rw [ofScalar_of_isFinite h.1]
  exact .float h.2

theorem legible_map {β : Type} {write : β → Json Float} {xs : List β}
    (h : ∀ x ∈ xs, Legible n (write x)) : Legible (n + 1) (.array (xs.map write)) := by
  refine .array ?_
  rintro j hj
  obtain ⟨x, hx, rfl⟩ := List.mem_map.1 hj
  exact h x hx

theorem legible_ofMap {β : Type} {write : β → Json Float} {m : OrderedMap β}
    (h : ∀ e ∈ m.entries, Legible n (write e.2)) : Legible (n + 1) (ofMap write m) := by
  refine .object ?_
  rintro e he
  obtain ⟨f, hf, rfl⟩ := List.mem_map.1 he
  exact h f hf

/-- A union is legible if its fields are. -/
theorem legible_tagged {tag c : String} {members : List (String × Json Float)}
    (h : ∀ e ∈ members, Legible n e.2) : Legible (n + 1) (tagged tag c members) :=
  .object (List.forall_mem_cons.2 ⟨.string c, h⟩)

end Json

theorem Point.legible_toDocument {p : Point Float} (h : p.All Faithful) :
    Json.Legible (n + 1) p.toDocument := by
  refine .object ?_
  simp [Json.legible_ofScalar h.1, Json.legible_ofScalar h.2]

theorem Segment.legible_toDocument {s : Segment Float} (h : s.All Faithful) :
    Json.Legible (n + 2) s.toDocument := by
  cases s <;>
  · refine Json.legible_tagged ?_
    simp only [All] at h
    simp [Json.legible_ofScalar, Point.legible_toDocument, h]

theorem Curve.legible_toDocument {c : Curve Float} (h : c.All Faithful) :
    Json.Legible (n + 4) c.toDocument := by
  refine Json.legible_tagged ?_
  cases c with
  | trapezoid p q r s =>
    obtain ⟨hp, hq, hr, hs⟩ := h
    have hpoints : Json.Legible (n + 3) (.array ([p, q, r, s].map Point.toDocument)) :=
      Json.legible_map (by simp [Point.legible_toDocument, hp, hq, hr, hs])
    simpa [documentFields] using hpoints
  | step k l r a b =>
    obtain ⟨hk, hl, hr, ha, hb⟩ := h
    have hsteps : Json.Legible (n + 3) (.int k) := .int (Nat.lt_trans hk (by decide))
    simp [documentFields, Json.legible_ofScalar, hsteps, hl, hr, ha, hb]
  | piecewise segments =>
    have hsegments : Json.Legible (n + 3) (.array (segments.map Segment.toDocument)) :=
      Json.legible_map fun s hs => Segment.legible_toDocument (h s hs)
    simpa [documentFields] using hsegments
  | lookup ys =>
    have hys : Json.Legible (n + 3) (.array (ys.map Json.ofScalar)) :=
      Json.legible_map fun y hy => Json.legible_ofScalar (h y hy)
    simpa [documentFields] using hys
  | _ =>
    simp only [All] at h
    simp [documentFields, Json.legible_ofScalar, Point.legible_toDocument, h]

theorem Variable.legible_toDocument {v : Variable Float} (h : v.All Faithful) :
    Json.Legible (n + 6) v.toDocument := by
  obtain ⟨hmin, hmax, hcurves⟩ := h
  have hmap : Json.Legible (n + 5) (.ofMap Curve.toDocument v.curves) :=
    Json.legible_ofMap fun e he => Curve.legible_toDocument (hcurves e he)
  refine .object ?_
  simp [Json.Legible.string, Json.legible_ofScalar, hmin, hmax, hmap]

end FuzzyInference
