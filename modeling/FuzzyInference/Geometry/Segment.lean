import FuzzyInference.Domain

/-!
# Segments

The pieces of a piecewise curve: a straight line, a flat step, and a quadratic Bezier arc. A new
segment orders its endpoints by `x`, and no segment joins two points that are the same up to
tolerance.

A Bezier arc is evaluated at a parameter that runs from `0` to `1/2` up to its control point and
from `1/2` to `1` behind it, linearly in `x`.

A run of segments is stitched so that it starts at `x = 0`, ends at `x = 1`, and each segment
starts exactly where the one before it ends. The two outer ends are extended along their own
segments. An endpoint that would meet the other one stops the work; the segments changed until
then stay changed, so stitching gives the run as it was left and the error. The two halves of the
engine's `stitch` are `joinFrom` and `closeEnd`.

Results:

* `left_setLeft` and `right_setLeft`, `right_setRight` and `left_setRight`: moving one endpoint
  leaves the other.
-/

namespace FuzzyInference

/-- A piece of a piecewise curve (the engine's `Segment`). -/
inductive Segment (α : Type) where
  | linear (left right : Point α)
  | step (left right : Point α) (height : α)
  | bezier (left right control : Point α)
  deriving Repr, DecidableEq

namespace Segment

variable {α : Type} [Scalar α]

/-! ## Construction -/

/-- Two distinct points ordered by `x` (the engine's `ordered`). -/
def ordered (p q : Point α) : Result α (Point α × Point α) :=
  if p.same q then .error (.segment (.zeroLength p q))
  else .ok (if p.x ≤ q.x then (p, q) else (q, p))

/-- The straight line between two points (the engine's `Segment.linear`). -/
def line (p q : Point α) : Result α (Segment α) := do
  let (left, right) ← ordered p q
  return .linear left right

/-- The step between two points, half way between their heights if it has none of
    its own (the engine's `Segment.step`). -/
def stair (p q : Point α) (height : Option α) : Result α (Segment α) := do
  let (left, right) ← ordered p q
  return .step left right (height.getD ((left.y + right.y) / 2))

/-- The Bezier arc between two points, bent through their midpoint if it has no
    control point (the engine's `Segment.bezier`). -/
def arc (p q : Point α) (control : Option (Point α)) : Result α (Segment α) := do
  let (left, right) ← ordered p q
  return .bezier left right (control.getD (left.between right 0.5))

/-! ## Endpoints -/

/-- The endpoint a segment starts at (the engine's `Segment.left`). -/
def left : Segment α → Point α
  | .linear l _ => l
  | .step l _ _ => l
  | .bezier l _ _ => l

/-- The endpoint a segment ends at (the engine's `Segment.right`). -/
def right : Segment α → Point α
  | .linear _ r => r
  | .step _ r _ => r
  | .bezier _ r _ => r

/-- The same segment between other endpoints (the engine's
    `Segment.endpoints_mut`). -/
def withEnds (s : Segment α) (l r : Point α) : Segment α :=
  match s with
  | .linear _ _ => .linear l r
  | .step _ _ h => .step l r h
  | .bezier _ _ c => .bezier l r c

omit [Scalar α] in
@[simp] theorem left_withEnds (s : Segment α) (l r : Point α) : (s.withEnds l r).left = l := by
  cases s <;> rfl

omit [Scalar α] in
@[simp] theorem right_withEnds (s : Segment α) (l r : Point α) : (s.withEnds l r).right = r := by
  cases s <;> rfl

/-- Moves the left endpoint, which may not meet the right one (the engine's
    `Segment.set_left`). -/
def setLeft (s : Segment α) (p : Point α) : Result α (Segment α) :=
  if p.same s.right then .error (.segment (.leftMeetsRight p)) else .ok (s.withEnds p s.right)

/-- Moves the right endpoint, which may not meet the left one (the engine's
    `Segment.set_right`). -/
def setRight (s : Segment α) (p : Point α) : Result α (Segment α) :=
  if p.same s.left then .error (.segment (.rightMeetsLeft p)) else .ok (s.withEnds s.left p)

section

variable {s t : Segment α} {p : Point α}

theorem eq_of_setLeft (h : s.setLeft p = .ok t) : t = s.withEnds p s.right := by
  unfold setLeft at h
  split at h
  · exact nomatch h
  · exact (Except.ok.inj h).symm

theorem eq_of_setRight (h : s.setRight p = .ok t) : t = s.withEnds s.left p := by
  unfold setRight at h
  split at h
  · exact nomatch h
  · exact (Except.ok.inj h).symm

theorem left_setLeft (h : s.setLeft p = .ok t) : t.left = p := by
  rw [eq_of_setLeft h, left_withEnds]

theorem right_setLeft (h : s.setLeft p = .ok t) : t.right = s.right := by
  rw [eq_of_setLeft h, right_withEnds]

theorem right_setRight (h : s.setRight p = .ok t) : t.right = p := by
  rw [eq_of_setRight h, right_withEnds]

theorem left_setRight (h : s.setRight p = .ok t) : t.left = s.left := by
  rw [eq_of_setRight h, left_withEnds]

end

/-- Whether `x` lies between the endpoints (the engine's `Segment.x_in_range`). -/
def covers (s : Segment α) (x : α) : Bool := s.left.x ≤ x && x ≤ s.right.x

/-! ## Evaluation -/

/-- The Bezier parameter of `x`, linear on either side of the control point (the
    engine's `bezier_t`). -/
def parameter (left right control : Point α) (x : α) : α :=
  if x < control.x ∧ left.x < control.x then
    (0.5 : α) - (0.5 : α) * (control.x - x) / (control.x - left.x)
  else if control.x < x ∧ control.x < right.x then
    (0.5 : α) + (0.5 : α) * (x - control.x) / (right.x - control.x)
  else (0.5 : α)

/-- The point of a quadratic Bezier arc at a parameter (the engine's
    `bezier_point`). -/
def arcPoint (left control right : Point α) (t : α) : Point α :=
  let alt := 1 - t
  left.scale (alt * alt) + control.scale (2 * t * alt) + right.scale (t * t)

/-- The height of a segment at `x`, also beyond its endpoints (the engine's
    `Segment.evaluate`). -/
def evaluate (s : Segment α) (x : α) : α :=
  match s with
  | .linear l r =>
    if r.x == l.x then r.y
    else
      let m := (r.y - l.y) / (r.x - l.x)
      let b := l.y - m * l.x
      m * x + b
  | .step _ _ h => h
  | .bezier l r c => (arcPoint l c r (parameter l r c x)).y

/-! ## Parts -/

/-- The two parts of a segment cut at `ratio`; a part without length is missing (the
    engine's `Segment.split`). -/
def split (s : Segment α) (ratio : α) : Result α (Option (Segment α) × Option (Segment α)) := do
  let ratio ← inUnit ratio
  let lo := s.left
  let hi := s.right
  let mid := lo.between hi ratio
  let parts := match s with
    | .linear _ _ => (Segment.linear lo mid, Segment.linear mid hi)
    | .step _ _ h => (.step lo mid h, .step mid hi h)
    | .bezier _ _ c =>
      let joint := arcPoint lo c hi ratio
      (.bezier lo joint (lo.between c ratio), .bezier joint hi (c.between hi ratio))
  return (if 0 < ratio then some parts.1 else none, if ratio < 1 then some parts.2 else none)

/-- The part of a segment between two positions (the engine's
    `Segment.subsegment`). -/
def subsegment (s : Segment α) (a b : α) : Result α (Segment α) := do
  let (x₁, x₂) := if a ≤ b then (a, b) else (b, a)
  if !s.covers x₁ || !s.covers x₂ then
    throw (.segment (.outside x₁ x₂ s.left.x s.right.x))
  match s with
  | .linear _ _ => line ⟨x₁, s.evaluate x₁⟩ ⟨x₂, s.evaluate x₂⟩
  | .step _ _ h => stair ⟨x₁, h⟩ ⟨x₂, h⟩ (some h)
  | .bezier l r c =>
    let t₁ := parameter l r c x₁
    let t₂ := parameter l r c x₂
    match (← s.split t₂).1 with
    | none => throw (.segment .emptyPart)
    | some head =>
      if t₁ ≤ 0 then return head
      match (← head.split (t₁ / t₂)).2 with
      | none => throw (.segment .emptyPart)
      | some tail => return tail

/-- The point half way in `x` (the engine's `Segment.midpoint`). -/
def midpoint (s : Segment α) : Point α :=
  let x := (s.left.x + s.right.x) / 2
  ⟨x, s.evaluate x⟩

/-- A highest point among the ones that can be highest (the engine's
    `Segment.max_point`). -/
def maxPoint (s : Segment α) : Point α :=
  match s with
  | .linear l r => if r.y < l.y then l else r
  | .step _ r h => ⟨r.x, h⟩
  | .bezier l r _ =>
    let best := if r.y < l.y then l else r
    let mid := s.midpoint
    if mid.y < best.y || (best.y == mid.y && mid.x < best.x) then best else mid

/-- A lowest point among the ones that can be lowest (the engine's
    `Segment.min_point`). -/
def minPoint (s : Segment α) : Point α :=
  match s with
  | .linear l r => if l.y ≤ r.y then l else r
  | .step l _ h => ⟨l.x, h⟩
  | .bezier l r _ =>
    let best := if l.y ≤ r.y then l else r
    let mid := s.midpoint
    if best.y ≤ mid.y then best else mid

/-- The control points besides the endpoints (the engine's
    `Segment.control_points`). -/
def controlPoints : Segment α → List (Point α)
  | .bezier _ _ c => [c]
  | _ => []

/-- Whether two segments are of one kind, with the same points up to tolerance and
    equal heights (the engine's `Segment.eq`). -/
def same : Segment α → Segment α → Bool
  | .linear l r, .linear l' r' => l.same l' && r.same r'
  | .step l r h, .step l' r' h' => l.same l' && r.same r' && h == h'
  | .bezier l r c, .bezier l' r' c' => l.same l' && r.same r' && c.same c'
  | _, _ => false

/-! ## Stitching -/

/-- A run of segments as it was left, and the error that stopped the work. -/
abbrev Stitched (α : Type) : Type := List (Segment α) × Option (Error α)

/-- Moves the left end of every segment to where the one before it ends. -/
def joinFrom (joint : Point α) : List (Segment α) → Stitched α
  | [] => ([], none)
  | s :: rest =>
    match s.setLeft joint with
    | .error e => (s :: rest, some e)
    | .ok s' =>
      let (rest', error) := joinFrom s'.right rest
      (s' :: rest', error)

/-- Extends the last segment to `x = 1`. -/
def closeEnd : List (Segment α) → Stitched α
  | [] => ([], none)
  | [s] =>
    match s.setRight ⟨1, s.evaluate 1⟩ with
    | .error e => ([s], some e)
    | .ok s' => ([s'], none)
  | s :: t :: rest =>
    let (rest', error) := closeEnd (t :: rest)
    (s :: rest', error)

/-- Stitches a run of segments over `[0, 1]` (the engine's `stitch`). -/
def stitch : List (Segment α) → Stitched α
  | [] => ([], none)
  | first :: rest =>
    match joinFrom ⟨0, first.evaluate 0⟩ (first :: rest) with
    | (segments, some e) => (segments, some e)
    | (segments, none) => closeEnd segments

end Segment

end FuzzyInference
