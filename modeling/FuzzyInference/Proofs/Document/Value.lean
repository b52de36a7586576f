import FuzzyInference.Document.Implication
import FuzzyInference.Proofs.Json.Arrange

/-!
# Documents of numbers and values read back

Finite numbers and bounded whole numbers are read back from their documents. A
number that is not finite is written all the same, and can be read as what it
was written as.

Whether a value is a number or a sentinel shows in the form of its document. A
document is read as a number exactly if it is one, so a sentinel is never read
for a number or a number for a sentinel.

Results:

* `toScalar?_ofScalar`, `toNat?_int`: finite numbers and bounded whole ones.
* `readable_ofScalar`, `readableItems_map`: what is written is readable.
* `Sentinel.ofDocument?_arrange` and `Value.ofDocument?_arrange`: finite values
  are read back.
* `Value.isSentinel_of_ofDocument?`: what documents are read as sentinels.
-/

namespace FuzzyInference

/-! ## Numbers -/

section

variable {α β : Type}

/-- Finite numbers only. -/
abbrev Finite [Scalar α] (x : α) : Prop := Scalar.isFinite x = true

namespace Json

section

variable [Scalar α]

theorem ofScalar_of_isFinite {x : α} (h : Scalar.isFinite x = true) :
    ofScalar x = .float x := if_pos h

theorem toScalar?_ofScalar {x : α} (h : Scalar.isFinite x = true) :
    toScalar? (ofScalar x) = some x := by
  rw [ofScalar_of_isFinite h]
  rfl

theorem optional_ofScalar {x : α} (h : Scalar.isFinite x = true) :
    optional toScalar? (some (ofScalar x)) = some (some x) := by
  rw [ofScalar_of_isFinite h]
  rfl

@[simp] theorem readable_ofScalar (x : α) : (ofScalar x).readable = true := by
  unfold ofScalar
  split <;> rfl

end

theorem toNat?_int {n bound : Nat} (h : n < bound) : toNat? bound (.int n : Json α) = some n :=
  if_pos ⟨Int.natCast_nonneg n, h⟩

theorem readableItems_map {write : β → Json α} {xs : List β}
    (h : ∀ x ∈ xs, (write x).readable = true) : readableItems (xs.map write) = true := by
  rw [readableItems_eq_all, List.all_map, List.all_eq_true]
  exact h

end Json

end

/-! ## Numbers in values -/

variable {α : Type}

/-- The substitute, if there is one, satisfies a predicate. -/
def Sentinel.All (P : α → Prop) (s : Sentinel α) : Prop := ∀ k ∈ s.substitute, P k

/-- The number of a value, or the one of its sentinel, satisfies a predicate. -/
def Value.All (P : α → Prop) : Value α → Prop
  | .number v => P v
  | .sentinel s => s.All P

instance Sentinel.decidableAll {P : α → Prop} [DecidablePred P] (s : Sentinel α) :
    Decidable (s.All P) :=
  inferInstanceAs (Decidable (∀ k ∈ s.substitute, P k))

instance Value.decidableAll {P : α → Prop} [DecidablePred P] : (v : Value α) → Decidable (v.All P)
  | .number v => inferInstanceAs (Decidable (P v))
  | .sentinel s => inferInstanceAs (Decidable (s.All P))

variable [Scalar α] {before : String → String → Bool}

/-! ## Sentinels -/

theorem Sentinel.readable_toDocument (s : Sentinel α) : s.toDocument.readable = true := by
  obtain ⟨ignore, _ | k⟩ := s <;> simp [toDocument, Json.readable, Json.readableMembers]

/-- Whichever settings are written, the ones that are left out have the values they
    had. -/
theorem Sentinel.ofDocument?_arrange {s : Sentinel α} (h : s.All Finite) :
    ofDocument? (s.toDocument.arrange before) = some s := by
  obtain ⟨ignore, _ | k⟩ := s
  · rw [ofDocument?, Json.fields?_arrange]
    simp [toDocument, Json.fields?, Json.countOf, Json.member?, Json.withDefault, Json.toBool?,
      Json.optional]
  · have hk : Finite k := h k rfl
    rw [ofDocument?, Json.fields?_arrange]
    simp [toDocument, Json.fields?, Json.countOf, Json.member?, Json.withDefault, Json.toBool?,
      Json.optional_ofScalar hk]

/-! ## Values -/

namespace Value

/-- A document is read as a sentinel exactly if it is not a number. -/
theorem isSentinel_of_ofDocument? {j : Json α} {v : Value α} (h : ofDocument? j = some v) :
    v.isSentinel = j.toScalar?.isNone := by
  rw [ofDocument?] at h
  split at h
  · cases hj : j.toScalar? with
    | some x =>
      rw [hj] at h
      cases h
      rfl
    | none =>
      rw [hj] at h
      obtain ⟨s, -, rfl⟩ := Option.map_eq_some_iff.1 h
      rfl
  · cases h

theorem toScalar?_toDocument_sentinel (s : Sentinel α) :
    (s.toDocument.arrange before).toScalar? = none := by
  rw [Sentinel.toDocument, Json.arrange_object]
  rfl

theorem ofDocument?_arrange {v : Value α} (h : v.All Finite) :
    ofDocument? (v.toDocument.arrange before) = some v := by
  cases v with
  | number x =>
    rw [toDocument, Json.arrange_ofScalar]
    exact ofDocument?_number x h
  | sentinel s =>
    rw [toDocument, ofDocument?, Json.readable_arrange, s.readable_toDocument, if_pos rfl,
      toScalar?_toDocument_sentinel, Sentinel.ofDocument?_arrange h]
    rfl

end Value

end FuzzyInference
