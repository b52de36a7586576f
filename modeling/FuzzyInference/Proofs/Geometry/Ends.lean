import FuzzyInference.Proofs.Curve.Gapless

/-!
# The order of endpoints

A constructor orders the two points of a segment by `x`, and a segment covers
positions only if its left end is not right of its right end. Moving an end keeps
no such order: the end goes wherever it is moved, as long as the two ends do not
meet, so what counts in the end is where the two ends were moved last.

Stitching moves ends as well. Between the outer ends at `0` and `1` it leaves the
right ends as they are, so the segments of a piecewise curve are in order exactly
if the right ends of the segments it is made of are.

Results:

* `forward_iff_exists_covers`: the order of the ends is what covering needs.
* `Drawn.forward`: constructors order the ends.
* `ends_move` and `ends_run`: where one move and a run of moves leave the ends.
* `right_stitch`: what stitching leaves.
* `forward_iff`: which segments and which curves have their ends in order.
-/

namespace FuzzyInference

open Scalar

variable {α : Type} [Scalar α]

namespace Segment

variable {s t : Segment α}

/-- The ends of a segment are ordered by `x`. -/
def Forward (s : Segment α) : Prop := s.left.x ≤ s.right.x

instance (s : Segment α) : Decidable s.Forward := inferInstanceAs (Decidable (s.left.x ≤ s.right.x))

/-- Only segments with their ends in order cover a position. -/
theorem forward_iff_exists_covers [OrderedNumbers α] : s.Forward ↔ ∃ x, s.covers x = true := by
  simp only [covers, Bool.and_eq_true, decide_eq_true_eq]
  constructor
  · exact fun h => ⟨s.left.x, le_self (OrderedNumbers.defined_of_le h).1, h⟩
  · rintro ⟨x, hleft, hright⟩
    exact OrderedNumbers.le_trans hleft hright

/-! ## Constructors -/

/-- A segment that a constructor makes of points whose positions are numbers. -/
inductive Drawn : Segment α → Prop
  | line {p q : Point α} {s} (hp : isNaN p.x = false) (hq : isNaN q.x = false)
      (h : line p q = .ok s) : Drawn s
  | stair {p q : Point α} {height : Option α} {s} (hp : isNaN p.x = false) (hq : isNaN q.x = false)
    (h : stair p q height = .ok s) : Drawn s
  | arc {p q : Point α} {control : Option (Point α)} {s} (hp : isNaN p.x = false)
      (hq : isNaN q.x = false)
    (h : arc p q control = .ok s) : Drawn s

theorem le_of_ordered [OrderedNumbers α] {p q : Point α} {ends : Point α × Point α}
    (hp : isNaN p.x = false) (hq : isNaN q.x = false) (h : ordered p q = .ok ends) :
    ends.1.x ≤ ends.2.x := by
  unfold ordered at h
  split at h
  · cases h
  · split at h
    · rename_i hle
      cases h
      exact hle
    · rename_i hle
      cases h
      exact (OrderedNumbers.le_total hp hq).resolve_left hle

theorem Drawn.forward [OrderedNumbers α] (h : Drawn s) : s.Forward := by
  cases h with
  | line hp hq h | stair hp hq h | arc hp hq h =>
    obtain ⟨ends, hends, h⟩ := bind_eq_ok.1 h
    cases h
    exact le_of_ordered hp hq hends

/-! ## Moved ends -/

/-- An end of a segment, and the point that it is moved to. -/
inductive Move (α : Type) where
  | left (p : Point α)
  | right (p : Point α)

/-- Moves one end of a segment. -/
def move (s : Segment α) : Move α → Result α (Segment α)
  | .left p => s.setLeft p
  | .right p => s.setRight p

/-- Moves ends one after the other, as long as they do not meet. -/
def run (s : Segment α) (ms : List (Move α)) : Result α (Segment α) := ms.foldlM move s

/-- Both ends of a segment. -/
def ends (s : Segment α) : Point α × Point α := (s.left, s.right)

/-- A pair of ends of which one is elsewhere. -/
def shifted (ends : Point α × Point α) : Move α → Point α × Point α
  | .left p => (p, ends.2)
  | .right p => (ends.1, p)

theorem ends_move {m : Move α} (h : s.move m = .ok t) : t.ends = shifted s.ends m := by
  cases m with
  | left p => exact Prod.ext (left_setLeft h) (right_setLeft h)
  | right p => exact Prod.ext (left_setRight h) (right_setRight h)

/-- Each end is where it was moved last. -/
theorem ends_run {ms : List (Move α)} (h : s.run ms = .ok t) :
    t.ends = ms.foldl shifted s.ends := by
  induction ms generalizing s with
  | nil =>
    cases h
    rfl
  | cons m ms ih =>
    obtain ⟨u, hmove, hrest⟩ := bind_eq_ok.1 h
    rw [ih hrest, ends_move hmove, List.foldl_cons]

/-! ## Stitched ends -/

theorem right_joinFrom {joint : Point α} {segments joined : List (Segment α)}
    (h : joinFrom joint segments = (joined, none)) : joined.map right = segments.map right := by
  induction segments generalizing joint joined with
  | nil =>
    cases h
    rfl
  | cons s rest ih =>
    obtain ⟨first, tail, hfirst, htail, rfl⟩ := joinFrom_cons.1 h
    rw [List.map_cons, List.map_cons, right_setLeft hfirst, ih htail]

theorem right_closeEnd {s : Segment α} {rest closed : List (Segment α)}
    (h : closeEnd (s :: rest) = (closed, none)) :
    closed.map (·.right.x) = ((s :: rest).map (·.right.x)).dropLast ++ [1] := by
  induction rest generalizing s closed with
  | nil =>
    obtain ⟨last, hlast, rfl⟩ := closeEnd_single.1 h
    exact congrArg (fun p => [p.x]) (right_setRight hlast)
  | cons t rest ih =>
    obtain ⟨tail, htail, rfl⟩ := closeEnd_cons.1 h
    rw [List.map_cons, ih htail]
    rfl

/-- Stitching leaves the right ends but the last one. -/
theorem right_stitch {segments stitched : List (Segment α)} (hne : segments ≠ [])
    (h : stitch segments = (stitched, none)) :
    stitched.map (·.right.x) = (segments.map (·.right.x)).dropLast ++ [1] := by
  obtain ⟨s, rest, rfl⟩ := List.exists_cons_of_ne_nil hne
  rcases hjoin : joinFrom ⟨0, s.evaluate 0⟩ (s :: rest) with ⟨joined, error⟩
  simp only [stitch, hjoin] at h
  cases error with
  | some e => cases h
  | none =>
    obtain ⟨first, tail, -, -, rfl⟩ := joinFrom_cons.1 hjoin
    have hright := congrArg (List.map Point.x) (right_joinFrom hjoin)
    rw [List.map_map, List.map_map] at hright
    rw [right_closeEnd h]
    exact congrArg (·.dropLast ++ [1]) hright

/-- Connected segments are in order if the joints between them are. -/
theorem Connected.forall_forward_iff {first : Segment α} {tail : List (Segment α)}
    (h : Connected (first :: tail)) : (∀ t ∈ first :: tail, t.Forward) ↔
      (first.left.x :: (first :: tail).map (·.right.x)).IsChain (· ≤ ·) := by
  induction tail generalizing first with
  | nil => simp [Forward]
  | cons second tail ih =>
    rw [Connected, List.isChain_cons_cons] at h
    rw [List.forall_mem_cons, ih h.2, ← h.1]
    simp only [List.map_cons, List.isChain_cons_cons, Forward]

end Segment

namespace Curve

open Segment

/-- The positions where the segments of a piecewise curve meet, with its two
    ends. -/
def joints (segments : List (Segment α)) : List α :=
  0 :: ((segments.map (·.right.x)).dropLast ++ [1])

theorem forall_forward_cons_iff {s : Segment α} {rest : List (Segment α)} {c : Curve α}
    (h : ofSegments (s :: rest) = .ok c) : ∃ stitched, c = .piecewise stitched ∧
      ((∀ t ∈ stitched, t.Forward) ↔ (joints (s :: rest)).IsChain (· ≤ ·)) := by
  obtain ⟨stitched, hstitch, rfl⟩ := ofSegments_cons.1 h
  refine ⟨stitched, rfl, ?_⟩
  have hne : s :: rest ≠ [] := List.cons_ne_nil s rest
  obtain ⟨hconnected, hstart, -⟩ := stitch_connected hne hstitch
  cases stitched with
  | nil => cases hstart
  | cons first tail =>
    have hfirst : first.left.x = 0 := Option.some.inj hstart
    rw [Connected.forall_forward_iff hconnected, right_stitch hne hstitch, hfirst, joints]

/-- The segments of a piecewise curve are in order if the right ends of the segments
    it is made of are, up to the last one, which is moved to `1`. -/
theorem forall_forward_iff {segments : List (Segment α)} {c : Curve α}
    (h : ofSegments segments = .ok c) :
    ∃ stitched, c = .piecewise stitched ∧
      ((∀ t ∈ stitched, t.Forward) ↔ (joints segments).IsChain (· ≤ ·)) := by
  cases segments with
  | cons s rest => exact forall_forward_cons_iff h
  | nil =>
    -- the curve without segments is made of a flat one, which is the last one
    obtain ⟨flat, -, h⟩ := bind_eq_ok.1 (ofSegments_nil.symm.trans h)
    exact forall_forward_cons_iff h

end Curve

namespace Segment

/-- A new segment has its ends in order. After any moves it has them in order if the
    points are to which they were moved last, and the segments of a piecewise curve
    have theirs in order if the joints between them are. -/
theorem forward_iff [OrderedNumbers α] :
    (∀ s : Segment α, Drawn s → s.Forward) ∧
    (∀ (s t : Segment α) (ms : List (Move α)), s.run ms = .ok t →
      (t.Forward ↔ (ms.foldl shifted s.ends).1.x ≤ (ms.foldl shifted s.ends).2.x)) ∧
    ∀ (segments : List (Segment α)) (c : Curve α), Curve.ofSegments segments = .ok c →
      ∃ stitched, c = .piecewise stitched ∧
        ((∀ t ∈ stitched, t.Forward) ↔ (Curve.joints segments).IsChain (· ≤ ·)) := by
  refine ⟨fun s h => h.forward, fun s t ms h => ?_, fun segments c h => Curve.forall_forward_iff h⟩
  rw [← ends_run h]
  rfl

/-- The diagonal of the unit square. -/
def diagonal : Segment Float := .linear ⟨0, 0⟩ ⟨1, 1⟩

theorem drawn_diagonal : Drawn diagonal := by
  have hline : line (⟨0, 0⟩ : Point Float) ⟨1, 1⟩ = .ok diagonal := rfl
  exact .line (by decide) (by decide) hline

theorem forward_diagonal :
    Drawn diagonal ∧ diagonal.Forward ∧
    diagonal.run [.left ⟨0.25, 0⟩, .right ⟨0.5, 1⟩] = .ok (.linear ⟨0.25, 0⟩ ⟨0.5, 1⟩) ∧
    (linear ⟨0.25, 0⟩ ⟨0.5, 1⟩ : Segment Float).Forward ∧
    ∃ stitched, Curve.ofSegments [.step ⟨0, 0⟩ ⟨0.5, 0⟩ 0.25, diagonal] =
      .ok (.piecewise stitched) ∧
      ∀ t ∈ stitched, t.Forward := by
  obtain ⟨hdrawn, hrun, hstitch⟩ := forward_iff (α := Float)
  have hmoved : diagonal.run [.left ⟨0.25, 0⟩, .right ⟨0.5, 1⟩] =
      .ok (.linear ⟨0.25, 0⟩ ⟨0.5, 1⟩) := rfl
  have hmade : Curve.ofSegments [.step ⟨0, 0⟩ ⟨0.5, 0⟩ 0.25, diagonal] =
      .ok (.piecewise [.step ⟨0, 0.25⟩ ⟨0.5, 0⟩ 0.25, .linear ⟨0.5, 0⟩ ⟨1, 1⟩]) := rfl
  obtain ⟨stitched, hcurve, hforward⟩ := hstitch _ _ hmade
  rw [hcurve] at hmade
  exact ⟨drawn_diagonal, hdrawn _ drawn_diagonal, hmoved, (hrun _ _ _ hmoved).2 (by decide),
    stitched, hmade, hforward.2 (by decide)⟩

/-- The left end of a line is moved past the right one. The line covers nothing
    then. The second one of three steps that are stitched together ends left of
    where it starts. -/
theorem not_forward_diagonal :
    Drawn diagonal ∧ diagonal.setLeft ⟨2, 0⟩ = .ok (.linear ⟨2, 0⟩ ⟨1, 1⟩) ∧
    ¬ (linear ⟨2, 0⟩ ⟨1, 1⟩ : Segment Float).Forward ∧
    (∀ x, (linear ⟨2, 0⟩ ⟨1, 1⟩ : Segment Float).covers x = false) ∧
    Curve.ofSegments Curve.overlapping = .ok (.piecewise [.step ⟨0, 0.25⟩ ⟨0.75, 1⟩ 0.25,
      .step ⟨0.75, 1⟩ ⟨0.5, 1⟩ 0.5, .step ⟨0.5, 1⟩ ⟨1, 0.75⟩ 0.75]) ∧
    ¬ (step ⟨0.75, 1⟩ ⟨0.5, 1⟩ 0.5 : Segment Float).Forward := by
  have hcrossed : ¬ (linear ⟨2, 0⟩ ⟨1, 1⟩ : Segment Float).Forward := by decide
  refine ⟨drawn_diagonal, rfl, hcrossed, fun x => ?_, rfl, by decide⟩
  exact Bool.eq_false_iff.2 fun hx => hcrossed (forward_iff_exists_covers.2 ⟨x, hx⟩)

end Segment

end FuzzyInference
