import FuzzyInference.Error.Basic
import FuzzyInference.Scalar.Basic

/-!
# The unit interval

Membership curves live over `[0, 1]`. A position just outside of it, off by less than a
millionth, counts as the nearest end; one further out is an error.

An even grid has evenly spaced positions over an interval. Between heights laid out on an even
grid over `[0, 1]` a curve is interpolated by straight lines.

Results:

* `inUnit_of_mem`: a position inside the interval is taken as it is.
* `length_grid`: a grid has as many positions as asked for.
-/

namespace FuzzyInference

/-! ## Positions -/

variable {α : Type} [Scalar α]

/-- How far outside of `[0, 1]` a position may drift (the engine's
    `DOMAIN_EPSILON`). -/
def domainDrift : α := (1e-6 : α)

/-- How far outside of `[0, 1]` a truth value may drift (the engine's
    `TRUTH_EPSILON`). -/
def truthDrift : α := (1e-4 : α)

/-- The value itself inside `[lo, hi]`, the nearest end within `drift` of it, and an
    error otherwise (the engine's `bounds_check`). -/
def within (value lo hi drift : α) : Result α α :=
  if lo ≤ value ∧ value ≤ hi then .ok value
  else if value < lo ∧ lo - value < drift then .ok lo
  else if hi < value ∧ value - hi < drift then .ok hi
  else .error (.outOfDomain value lo hi)

/-- A position in the unit interval (the engine's `unit_check`). -/
def inUnit (x : α) : Result α α := within x 0 1 domainDrift

theorem inUnit_of_mem {x : α} (h : 0 ≤ x ∧ x ≤ 1) : inUnit x = .ok x := by
  simp [inUnit, within, h]

/-! ## Even grids -/

/-- The distance between neighbours of a grid of `n` positions; a single position
    has none (within the engine's `Linspace.new`). -/
def gridStep (lo hi : α) (n : Nat) : α := if 1 < n then (hi - lo) / Scalar.ofNat (n - 1) else 0

/-- `n` evenly spaced positions from `lo` to `hi` (the engine's `Linspace`). -/
def grid (lo hi : α) (n : Nat) : List α :=
  (List.range n).map fun i => lo + gridStep lo hi n * Scalar.ofNat i

@[simp] theorem length_grid (lo hi : α) (n : Nat) : (grid lo hi n).length = n := by simp [grid]

/-- The height at `x` of the straight line between `low` and `high`, at a fraction
    of the way (within the engine's `interp_even`). -/
def onLine (low high fraction : α) : α := low + (high - low) * fraction

/-- The height at `x` between heights laid out evenly over `[0, 1]`; there is none
    without heights (the engine's `interp_even`). -/
def interpolate? (x : α) (heights : List α) : Option α :=
  match heights with
  | [] => none
  | [y] => some y
  | ys =>
    let last := ys.length - 1
    let position := Scalar.minimum (Scalar.maximum x 0) 1 * Scalar.ofNat last
    let i := min (Scalar.toNat (Scalar.floor position)) (last - 1)
    match ys[i]?, ys[i + 1]? with
    | some low, some high => some (onLine low high (position - Scalar.ofNat i))
    | _, _ => none

end FuzzyInference
