import FuzzyInference.Config.Basic
import FuzzyInference.Defuzzify
import FuzzyInference.Variable.Basic

/-!
# Implications

What rules conclude about a result: curves over the result's range, each clipped
at the truth of its rule. The height of an implication at a position is the
largest clipped height, and never below zero. An implication whose clip was
missing data has no curves and carries a sentinel instead.

Results:

* `valueAt_noData`: a missing implication has its sentinel everywhere.
* `union_noData_left`: a missing implication gives way to the other one.
-/

namespace FuzzyInference

/-- A curve and the height it is clipped at (the engine's `ClippedCurve`). -/
structure Clipped (α : Type) where
  curve : Curve α
  clip : α

/-- Clipped curves over a result's range, or the sentinel of missing data (the
    engine's `Implication`). -/
structure Implication (α : Type) where
  min : α
  max : α
  terms : List (Clipped α)
  noData : Option (Sentinel α)

namespace Implication

variable {α : Type} [Scalar α]

/-- A curve clipped at a truth value (the engine's `Implication.new`). Missing data
    without a substitute leaves nothing to clip. -/
def ofClip (min max : α) (c : Curve α) (clip : Value α) : Implication α :=
  match clip with
  | .number h => ⟨min, max, [⟨c, h⟩], none⟩
  | .sentinel s =>
    match s.substitution with
    | some h => ⟨min, max, [⟨c, h⟩], none⟩
    | none => ⟨min, max, [], some ⟨s.ignore, none⟩⟩

/-- Whether an implication is missing data (the engine's
    `Implication.is_no_data`). -/
def isNoData (i : Implication α) : Bool := i.noData.isSome

/-- The largest of a height and the clipped heights of terms at a position of the
    unit interval (within the engine's `Implication.at`). -/
def heightFrom (n : α) (height : α) : List (Clipped α) → Result α α
  | [] => .ok height
  | t :: ts => do
    let y ← t.curve.evaluate n
    heightFrom n (Scalar.maximum height (Scalar.minimum y t.clip)) ts

/-- The height of an implication at a position in the result's range (the engine's
    `Implication.at`). -/
def valueAt (i : Implication α) (x : α) : Result α (Value α) :=
  match i.noData with
  | some s => .ok (.sentinel s)
  | none => do
    let h ← heightFrom ((x - i.min) / (i.max - i.min)) 0 i.terms
    return .number h

/-- The union of two implications over one range; a missing one gives way (the
    engine's `Implication.union`). -/
def union (i j : Implication α) : Result α (Implication α) :=
  if i.min == j.min && i.max == j.max then
    if i.noData.isSome then .ok j
    else if j.noData.isSome then .ok i
    else .ok { i with terms := i.terms ++ j.terms }
  else .error (.rangeMismatch i.min i.max j.min j.max)

theorem valueAt_noData {i : Implication α} {s : Sentinel α} (h : i.noData = some s) (x : α) :
    i.valueAt x = .ok (.sentinel s) := by
  simp [valueAt, h]

theorem union_noData_left {i j : Implication α} (hr : (i.min == j.min && i.max == j.max) = true)
    (h : i.noData.isSome = true) : i.union j = .ok j := by
  simp [union, hr, h]

/-- `count + 1` evenly spaced positions over the range, with their heights (the
    engine's `Implication.samples`). -/
def samples (i : Implication α) (count : Nat) : Result α (List α × List α) :=
  if count = 0 then .error (.argument .noSamples)
  else do
    let xs := grid i.min i.max (count + 1)
    let ys ← xs.mapM fun x => do
      match (← i.valueAt x).number? with
      | some y => pure y
      | none => throw (.computation .noDataSampled)
    return (xs, ys)

/-- Reduces an implication to one position in its range, if it has area; a missing
    one to its sentinel (the engine's `Implication.defuzzify`). -/
def defuzzify (i : Implication α) (method : Method) (count : Nat) : Result α (Option (Value α)) :=
  match i.noData with
  | some s => .ok (some (.sentinel s))
  | none => do
    let (xs, ys) ← i.samples count
    let x ← method.reduce xs ys
    return x.map .number

/-- The centroid with the default number of samples (the engine's
    `Implication.default_centroid`). -/
def centroid (i : Implication α) : Result α (Option (Value α)) :=
  i.defuzzify .centroid defaultSampleCount

/-- Whether two implications have equal ranges, terms and sentinels (the engine's
    `Implication.eq`). -/
def same (i j : Implication α) : Bool :=
  i.min == j.min && i.max == j.max && i.terms.length == j.terms.length &&
    ((i.terms.zip j.terms).all fun (a, b) => a.curve.same b.curve && a.clip == b.clip) &&
    match i.noData, j.noData with
    | some s, some t => s.same t
    | none, none => true
    | _, _ => false

end Implication

/-- The membership of a result clipped at a truth value (the engine's
    `FuzzyResult.implication`). -/
def Variable.implication {α : Type} [Scalar α] (result : Variable α) (membership : String)
    (clip : Value α) : Result α (Implication α) := do
  let c ← result.curve membership
  return .ofClip result.min result.max c clip

end FuzzyInference
