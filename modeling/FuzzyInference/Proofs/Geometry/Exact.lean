import FuzzyInference.Geometry.Segment
import FuzzyInference.Proofs.Error.Result
import FuzzyInference.Proofs.Geometry.Arc
import FuzzyInference.Proofs.Scalar.Exact

/-!
# Segments between real points

Over exact scalars a segment between real points has real heights at real
positions: those of a line, a constant, or the height of an arc at the parameter
of the position. No division by zero is made to find them.

Results:

* `Constructed.exists_real`: what the constructors make of real points.
* `evaluate_dividing` and `evaluate_exactly`: the heights of such a segment.
* `split_arc`: cutting an arc gives the parts of the same arc.
-/

namespace FuzzyInference

open Arc
open Exact (dividing)

/-! ## Points -/

namespace Point

/-- A real point over exact scalars. -/
def exactly (p : Point ℝ) : Point Exact := ⟨p.x, p.y⟩

@[simp] theorem x_exactly (p : Point ℝ) : p.exactly.x = p.x := rfl

@[simp] theorem y_exactly (p : Point ℝ) : p.exactly.y = p.y := rfl

theorem exactly_injective : Function.Injective exactly := by
  rintro ⟨x, y⟩ ⟨x', y'⟩ h
  cases h
  rfl

/-- The point of an arc at a parameter. -/
def onArc (l c r : Point ℝ) (t : ℝ) : Point ℝ := ⟨bend l.x c.x r.x t, bend l.y c.y r.y t⟩

/-- The control point of the part of an arc between two parameters. -/
def onPolar (l c r : Point ℝ) (s t : ℝ) : Point ℝ := ⟨polar l.x c.x r.x s t, polar l.y c.y r.y s t⟩

@[simp] theorem onArc_zero (l c r : Point ℝ) : onArc l c r 0 = l := by simp [onArc]

@[simp] theorem onArc_one (l c r : Point ℝ) : onArc l c r 1 = r := by simp [onArc]

theorem between_exactly (p q : Point ℝ) (t : ℝ) :
    p.exactly.between q.exactly (t : Exact) =
      (⟨p.x * (1 - t) + q.x * t, p.y * (1 - t) + q.y * t⟩ : Point ℝ).exactly :=
  Point.ext (by simp [between]) (by simp [between])

end Point

namespace Segment

/-! ## Segments -/

/-- A segment between real points over exact scalars. -/
def exactly : Segment ℝ → Segment Exact
  | .linear l r => .linear l.exactly r.exactly
  | .step l r h => .step l.exactly r.exactly h
  | .bezier l r c => .bezier l.exactly r.exactly c.exactly

@[simp] theorem left_exactly (s : Segment ℝ) : s.exactly.left = s.left.exactly := by
  cases s <;> rfl

@[simp] theorem right_exactly (s : Segment ℝ) : s.exactly.right = s.right.exactly := by
  cases s <;> rfl

/-- What holds of the points of every arc that a segment is, holds of the points of
    the segment. -/
theorem forall_bezier_iff {l r c : Point ℝ} {P : Point ℝ → Point ℝ → Point ℝ → Prop} :
    (∀ l' r' c' : Point ℝ, (bezier l r c).exactly =
      .bezier l'.exactly r'.exactly c'.exactly → P l' r' c') ↔
      P l r c := by
  refine ⟨fun h => h l r c rfl, fun h l' r' c' heq => ?_⟩
  obtain ⟨hl, hr, hc⟩ := Segment.bezier.inj heq
  rwa [← Point.exactly_injective hl, ← Point.exactly_injective hr, ← Point.exactly_injective hc]

theorem covers_exactly {s : Segment ℝ} {x : ℝ} :
    s.exactly.covers x = true ↔ s.left.x ≤ x ∧ x ≤ s.right.x := by
  simp [covers]

/-! ## Heights -/

theorem half_exactly : (0.5 : Exact) = ((0.5 : ℝ) : Exact) := rfl

/-- The distances that a parameter is found with are compared before they are
    divided by. -/
theorem parameter_dividing (l r c : Point ℝ) (x : ℝ) (byZero : Exact → Exact) :
    @parameter Exact (dividing byZero) l.exactly r.exactly c.exactly x =
      (share l.x c.x r.x x : ℝ) := by
  unfold parameter share
  simp only [Point.x_exactly, half_exactly, Exact.real_lt, Exact.real_sub, Exact.real_mul]
  split_ifs with hbefore hbehind
  · rw [Exact.real_div_dividing _ _ (sub_pos.2 hbefore.2).ne', Exact.real_sub]
  · rw [Exact.real_div_dividing _ _ (sub_pos.2 hbehind.2).ne', Exact.real_add]
  · rfl

theorem parameter_exactly (l r c : Point ℝ) (x : ℝ) :
    parameter l.exactly r.exactly c.exactly x = (share l.x c.x r.x x : ℝ) :=
  Exact.eq_of_forall_dividing (fun s => @parameter Exact s l.exactly r.exactly c.exactly x)
    (parameter_dividing l r c x)

theorem arcPoint_exactly (l c r : Point ℝ) (t : ℝ) :
    arcPoint l.exactly c.exactly r.exactly t = (Point.onArc l c r t).exactly := by
  refine Point.ext ?_ ?_
  · simp only [arcPoint, Point.add_x, Point.scale_x, Point.x_exactly, Exact.one_eq, Exact.two_eq,
      Exact.real_sub, Exact.real_mul, Exact.real_add, Point.onArc, bend]
    congr 1
    ring
  · simp only [arcPoint, Point.add_y, Point.scale_y, Point.y_exactly, Exact.one_eq, Exact.two_eq,
      Exact.real_sub, Exact.real_mul, Exact.real_add, Point.onArc, bend]
    congr 1
    ring

/-- The height of a segment at a position. -/
noncomputable def height (s : Segment ℝ) (x : ℝ) : ℝ :=
  match s with
  | .linear l r => if r.x = l.x then r.y else l.y + (r.y - l.y) / (r.x - l.x) * (x - l.x)
  | .step _ _ h => h
  | .bezier l r c => bend l.y c.y r.y (share l.x c.x r.x x)

/-- A line is told apart from ends above each other before its slope is divided by,
    and an arc is read at a parameter. -/
theorem evaluate_dividing (s : Segment ℝ) (x : ℝ) (byZero : Exact → Exact) :
    @evaluate Exact (dividing byZero) s.exactly x = (s.height x : ℝ) := by
  cases s with
  | linear l r =>
    unfold evaluate height exactly
    simp only [Point.x_exactly, Point.y_exactly, Exact.real_beq]
    split_ifs with h
    · rfl
    · simp only [Exact.real_sub, Exact.real_div_dividing _ _ (sub_ne_zero.2 h), Exact.real_mul,
        Exact.real_add]
      congr 1
      ring
  | step l r h => rfl
  | bezier l r c =>
    change (arcPoint l.exactly c.exactly r.exactly
      (@parameter Exact (dividing byZero) l.exactly r.exactly c.exactly x)).y = _
    rw [parameter_dividing, arcPoint_exactly]
    rfl

theorem evaluate_exactly (s : Segment ℝ) (x : ℝ) : s.exactly.evaluate x = (s.height x : ℝ) :=
  Exact.eq_of_forall_dividing (fun i => @evaluate Exact i s.exactly x) (s.evaluate_dividing x)

/-! ## Construction -/

/-- A segment that a constructor makes of real points. -/
inductive Constructed : Segment Exact → Prop
  | line {p q : Point ℝ} {s} : line p.exactly q.exactly = .ok s → Constructed s
  | stair {p q : Point ℝ} {height : Option ℝ} {s} :
    stair p.exactly q.exactly (height.map Exact.real) = .ok s → Constructed s
  | arc {p q : Point ℝ} {control : Option (Point ℝ)} {s} :
    arc p.exactly q.exactly (control.map Point.exactly) = .ok s → Constructed s

theorem ordered_exactly {p q : Point ℝ} {ends : Point Exact × Point Exact}
    (h : ordered p.exactly q.exactly = .ok ends) :
    ends = if p.x ≤ q.x then (p.exactly, q.exactly) else (q.exactly, p.exactly) := by
  unfold ordered at h
  split at h
  · cases h
  · simp only [Point.x_exactly, Exact.real_le, Except.ok.injEq] at h
    exact h.symm

theorem exists_of_ordered {p q : Point ℝ} {ends : Point Exact × Point Exact}
    (h : ordered p.exactly q.exactly = .ok ends) :
    ∃ l r : Point ℝ, ends = (l.exactly, r.exactly) ∧ l.x ≤ r.x := by
  rw [ordered_exactly h]
  split_ifs with hle
  · exact ⟨p, q, rfl, hle⟩
  · exact ⟨q, p, rfl, (not_le.1 hle).le⟩

/-- The constructors order their points, and choose a height and a control point
    that are real. -/
theorem Constructed.exists_real {s : Segment Exact} (h : Constructed s) :
    ∃ t : Segment ℝ, s = t.exactly ∧ t.left.x ≤ t.right.x := by
  cases h with
  | line h =>
    obtain ⟨ends, hends, h⟩ := bind_eq_ok.1 h
    obtain ⟨l, r, rfl, hlr⟩ := exists_of_ordered hends
    cases h
    exact ⟨.linear l r, rfl, hlr⟩
  | @stair p q height s h =>
    obtain ⟨ends, hends, h⟩ := bind_eq_ok.1 h
    obtain ⟨l, r, rfl, hlr⟩ := exists_of_ordered hends
    cases h
    cases height with
    | some height => exact ⟨.step l r height, rfl, hlr⟩
    | none =>
      refine ⟨.step l r ((l.y + r.y) / 2), congrArg (Segment.step l.exactly r.exactly) ?_, hlr⟩
      simp [Exact.real_div]
  | @arc p q control s h =>
    obtain ⟨ends, hends, h⟩ := bind_eq_ok.1 h
    obtain ⟨l, r, rfl, hlr⟩ := exists_of_ordered hends
    cases h
    cases control with
    | some control => exact ⟨.bezier l r control, rfl, hlr⟩
    | none =>
      have hmiddle :=
        (congrArg (l.exactly.between r.exactly) half_exactly).trans (l.between_exactly r 0.5)
      exact ⟨.bezier l r _, congrArg (Segment.bezier l.exactly r.exactly) hmiddle, hlr⟩

/-- Ends that are further apart than the tolerance make an arc with any control
    point. -/
theorem constructed_bezier {l r : Point ℝ} (c : Point ℝ) (hle : l.x ≤ r.x)
    (hapart : 1e-8 + 1e-5 * |r.x| < |l.x - r.x|) :
    Constructed (bezier l.exactly r.exactly c.exactly) := by
  have hclose : Point.close (l.x : Exact) r.x = false := by
    refine decide_eq_false fun h => hapart.not_ge ?_
    have hbound : (1e-8 : Exact) + (1e-5 : Exact) * Exact.real |r.x| =
        Exact.real (1e-8 + 1e-5 * |r.x|) := rfl
    rwa [Exact.real_sub, Exact.abs_real, Exact.abs_real, hbound, Exact.real_le] at h
  have hends : ordered l.exactly r.exactly = .ok (l.exactly, r.exactly) := by
    unfold ordered Point.same
    rw [Point.x_exactly, Point.x_exactly, hclose, if_neg (by simp), if_pos (Exact.real_le.2 hle)]
  have harc : Segment.arc l.exactly r.exactly ((some c).map Point.exactly) =
      .ok (.bezier l.exactly r.exactly c.exactly) := bind_eq_ok.2 ⟨_, hends, rfl⟩
  exact .arc harc

/-! ## Parts of arcs -/

/-- The part of an arc between two parameters. -/
def part (l r c : Point ℝ) (s t : ℝ) : Segment ℝ :=
  .bezier (.onArc l c r s) (.onArc l c r t) (.onPolar l c r s t)

theorem part_whole (l r c : Point ℝ) : part l r c 0 1 = .bezier l r c := by
  simp [part, Point.onPolar, polar]

/-- A part of a part is a part. -/
theorem part_part (l r c : Point ℝ) (s t u v : ℝ) :
    part (.onArc l c r s) (.onArc l c r t) (.onPolar l c r s t) u v =
      part l r c (s + u * (t - s)) (s + v * (t - s)) := by
  simp only [part, Point.onArc, Point.onPolar, bend_part, polar_part]

/-- Cutting an arc gives its parts in front of the parameter and behind it. -/
theorem split_arc (l r c : Point ℝ) {t : ℝ} (ht : 0 ≤ t ∧ t ≤ 1) :
    (Segment.bezier l r c).exactly.split t = .ok
      (if 0 < t then some (part l r c 0 t).exactly else none,
        if t < 1 then some (part l r c t 1).exactly else none) := by
  have hunit : inUnit (t : Exact) = .ok (t : Exact) := inUnit_of_mem (by simpa using ht)
  have hfront : l.exactly.between c.exactly t = (Point.onPolar l c r 0 t).exactly := by
    rw [Point.between_exactly]
    refine congrArg Point.exactly (Point.ext ?_ ?_) <;> simp [Point.onPolar, polar]
  have hback : c.exactly.between r.exactly t = (Point.onPolar l c r t 1).exactly := by
    rw [Point.between_exactly]
    refine congrArg Point.exactly (Point.ext ?_ ?_) <;> simp [Point.onPolar, polar]
  refine bind_eq_ok.2 ⟨t, hunit, ?_⟩
  change Except.ok (if (0 : Exact) < t then
      some (bezier l.exactly (arcPoint l.exactly c.exactly r.exactly t)
        (l.exactly.between c.exactly t)) else none,
    if (t : Exact) < 1 then
      some (bezier (arcPoint l.exactly c.exactly r.exactly t) r.exactly
        (c.exactly.between r.exactly t)) else none) = _
  rw [arcPoint_exactly, hfront, hback]
  simp only [part, Point.onArc_zero, Point.onArc_one, exactly, Exact.zero_eq, Exact.one_eq,
    Exact.real_lt]

end Segment

end FuzzyInference
