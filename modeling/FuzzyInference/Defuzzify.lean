import FuzzyInference.Error.Basic
import FuzzyInference.Text.Basic

/-!
# Defuzzification

The ways to reduce a membership curve to one position, with their names and abbreviations.

A membership curve sampled at evenly spaced positions is reduced to one position. The centroid
weighs the samples by Simpson's rule, whose common factor cancels out of the ratio. The bisector
walks along the samples while the sums of heights up to a sample and from it on come nearer to
each other. The three maximum methods look at the samples of maximal height. Without area there is
no centroid and no bisector. Each method is one branch of the engine's `DefuzzificationOp.call`.

Results:

* `Method.ofName?_name`: every method is read back from its name.
-/

namespace FuzzyInference

/-! ## Methods -/

/-- How a membership curve is reduced to one position (the engine's
    `DefuzzificationOp`). -/
inductive Method where
  /-- The centre of gravity of the area under the curve. -/
  | centroid
  /-- The position that halves the area under the curve. -/
  | bisector
  | smallestOfMaximum
  | largestOfMaximum
  /-- The middle between the first and the last position of maximal height. -/
  | meanOfMaximum
  deriving Repr, DecidableEq, Inhabited

namespace Method

/-- Every method (the engine's `DefuzzificationOp.ALL`). -/
def all : List Method := [centroid, bisector, smallestOfMaximum, largestOfMaximum, meanOfMaximum]

/-- The name of a method (the engine's `DefuzzificationOp.name`). -/
def name : Method → String
  | centroid => "centroid"
  | bisector => "bisector"
  | smallestOfMaximum => "smallest_of_maximum"
  | largestOfMaximum => "largest_of_maximum"
  | meanOfMaximum => "mean_of_maximum"

/-- The short name of a method (within the engine's
    `DefuzzificationOp.from_str`). -/
def abbreviation : Method → String
  | centroid => "cog"
  | bisector => "boa"
  | smallestOfMaximum => "som"
  | largestOfMaximum => "lom"
  | meanOfMaximum => "mom"

/-- The method with exactly this name. -/
def ofName? (s : String) : Option Method := all.find? fun m => decide (m.name = s)

theorem ofName?_name (m : Method) : ofName? m.name = some m := by cases m <;> decide

/-- The method a text names, by name or abbreviation, in any letter case and between
    blanks (the engine's `DefuzzificationOp.from_str`). -/
def parse {α : Type} (s : String) : Result α Method :=
  let word := (Text.trim s).toLower
  match all.find? fun m => decide (m.name = word) || decide (m.abbreviation = word) with
  | some m => .ok m
  | none => .error (.unknownMethod s)

/-! ## Reducing samples -/

variable {α : Type} [Scalar α]

/-- The weight of sample `i` of `n` in Simpson's rule, up to a common factor. -/
def weight (n i : Nat) : α := if i = 0 ∨ i + 1 = n then 1 else if i % 2 = 1 then 4 else 2

/-- Area and moment under samples, given as position, height and index. -/
def momentum (n : Nat) (samples : List ((α × α) × Nat)) : α × α :=
  samples.foldl
    (fun (area, moment) ((x, y), i) =>
      let w := weight n i
      (area + w * y, moment + w * x * y))
    (0, 0)

/-- The centre of gravity of samples. -/
def centroidOf (samples : List (α × α)) : Option α :=
  let (area, moment) := momentum samples.length samples.zipIdx
  if area == 0 then none else some (moment / area)

/-- The running sums of heights. -/
def prefixSums (acc : α) : List α → List α
  | [] => []
  | y :: ys => (acc + y) :: prefixSums (acc + y) ys

/-- For each sample, how far apart the sums of heights up to it and from it on
    are. -/
def imbalances (heights : List α) : List α :=
  let forward := prefixSums 0 heights
  let backward := (prefixSums 0 heights.reverse).reverse
  forward.zipWith (fun f b => Scalar.abs (f - b)) backward

/-- The position where imbalances stop falling: the first balanced one, or the one
    before the first rise. -/
def balancePoint (previous lastImbalance : α) : List (α × α) → Result α α
  | [] => .error (.computation .bisectorNotFound)
  | (x, d) :: rest =>
    if d == 0 then .ok x
    else if lastImbalance < d then .ok previous
    else balancePoint x d rest

/-- The position that halves the area under samples. -/
def bisectorOf (samples : List (α × α)) : Result α (Option α) :=
  let heights := samples.map (·.2)
  let total := heights.foldl (· + ·) 0
  if total == 0 then .ok none
  else match samples with
    | [] => .ok none
    | (x, _) :: _ => do
      let found ← balancePoint x (total + total) ((samples.map (·.1)).zip (imbalances heights))
      return some found

/-- The positions of maximal height. -/
def maximal (samples : List (α × α)) : List α :=
  let top := samples.foldl (fun m s => Scalar.maximum m s.2) (-Scalar.infinity)
  (samples.filter fun s => s.2 == top).map (·.1)

/-- Reduces the heights at evenly spaced positions to one position, if there is one
    (the engine's `DefuzzificationOp.call`). -/
def reduce (method : Method) (positions heights : List α) : Result α (Option α) :=
  let samples := positions.zip heights
  if samples.isEmpty then .ok none
  else match method with
    | .centroid => .ok (centroidOf samples)
    | .bisector => bisectorOf samples
    | .smallestOfMaximum => .ok (maximal samples).head?
    | .largestOfMaximum => .ok (maximal samples).getLast?
    | .meanOfMaximum =>
      .ok do
        let first ← (maximal samples).head?
        let last ← (maximal samples).getLast?
        return (first + last) / (1 + 1)

end Method

end FuzzyInference
