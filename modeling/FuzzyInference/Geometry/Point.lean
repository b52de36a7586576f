import FuzzyInference.Scalar.Basic

/-!
# Points

Points of the plane with their vector operations. Coordinates that differ by rounding are taken
for the same point: two numbers are close when they differ by at most `1e-8` plus `1e-5` of the
second one's size. Closeness is not symmetric, and it never holds of an undefined number.
-/

namespace FuzzyInference

/-- A point of the plane (the engine's `Point2D`). -/
@[ext]
structure Point (α : Type) where
  x : α
  y : α
  deriving Repr, DecidableEq, Inhabited

namespace Point

variable {α : Type} [Scalar α]

/-- Whether a number equals another one up to the tolerance at the other one's size
    (within the engine's `Point2D.eq`). -/
def close (a b : α) : Bool := Scalar.abs (a - b) ≤ (1e-8 : α) + (1e-5 : α) * Scalar.abs b

/-- Whether two points are the same up to the tolerance (the engine's
    `Point2D.eq`). -/
def same (p q : Point α) : Bool := close p.x q.x && close p.y q.y

/-- Addition, coordinate by coordinate (the engine's `Point2D.add`). -/
instance : Add (Point α) := ⟨fun p q => ⟨p.x + q.x, p.y + q.y⟩⟩

/-- Subtraction, coordinate by coordinate (the engine's `Point2D.sub`). -/
instance : Sub (Point α) := ⟨fun p q => ⟨p.x - q.x, p.y - q.y⟩⟩

/-- A point scaled by a number (the engine's `Point2D.mul`). -/
def scale (p : Point α) (k : α) : Point α := ⟨p.x * k, p.y * k⟩

/-- The point at `ratio` on the way from one point to another (the engine's
    `Point2D.lerp`). -/
def between (p q : Point α) (ratio : α) : Point α := p.scale (1 - ratio) + q.scale ratio

/-- The text of a point (the engine's `Point2D.fmt`). -/
def text (p : Point α) : String := "(" ++ Scalar.text p.x ++ "," ++ Scalar.text p.y ++ ")"

@[simp] theorem add_x (p q : Point α) : (p + q).x = p.x + q.x := rfl

@[simp] theorem add_y (p q : Point α) : (p + q).y = p.y + q.y := rfl

@[simp] theorem sub_x (p q : Point α) : (p - q).x = p.x - q.x := rfl

@[simp] theorem sub_y (p q : Point α) : (p - q).y = p.y - q.y := rfl

@[simp] theorem scale_x (p : Point α) (k : α) : (p.scale k).x = p.x * k := rfl

@[simp] theorem scale_y (p : Point α) (k : α) : (p.scale k).y = p.y * k := rfl

end Point

end FuzzyInference
