import FuzzyInference.Proofs.Curve.Gapless
import FuzzyInference.Proofs.Geometry.Subsegment

/-!
# Heights and pieces of arcs

A Bezier arc is read at the parameter of a position. Wherever the control point is, the
positions between the ends have parameters between zero and one, in their own order, and
the distances that are divided by are not zero. At such a parameter each coordinate is an
average of those of the three points, so the height is between the lowest and the highest
of them.

An arc is cut at a parameter, not at a position. Both pieces run along the arc: what is
`u` of the way through a piece is on the arc, `u` of the way between the parameters of
the ends of the piece.

Results:

* `height_arc_mem`: heights are between those of the three points.
* `along_part`: the points of a piece.
* `leads_pieces`: pieces lead from one end of the arc to the other.
* `hull_and_pieces`: how an arc is read, and what cutting it leaves.
-/

namespace FuzzyInference.Segment

open Arc
open Exact (NoZeroDivision)

variable {l r c : Point ℝ} {x y : ℝ}

/-! ## Heights -/

theorem noZeroDivision_parameter (l r c : Point ℝ) (x : ℝ) :
    NoZeroDivision fun i => @parameter Exact i l.exactly r.exactly c.exactly (x : Exact) :=
  Exact.noZeroDivision_of_forall _ (parameter_dividing l r c x)

theorem noZeroDivision_evaluate (s : Segment ℝ) (x : ℝ) :
    NoZeroDivision fun i => @evaluate Exact i s.exactly (x : Exact) :=
  Exact.noZeroDivision_of_forall _ (s.evaluate_dividing x)

theorem height_arc_mem (hl : l.x ≤ x) (hr : x ≤ r.x) :
    min (min l.y c.y) r.y ≤ (bezier l r c).height x ∧
    (bezier l r c).height x ≤ max (max l.y c.y) r.y := by
  obtain ⟨hstart, hend⟩ := share_mem (c := c.x) hl hr
  exact ⟨le_bend (by simp) (by simp) (by simp) hstart hend,
    bend_le (by simp) (by simp) (by simp) hstart hend⟩

/-- An arc is read at one of its parameters, to a height between those of its three
    points, and without dividing by zero. -/
structure ReadsWithin (l r c : Point ℝ) (x : ℝ) : Prop where
  parameter_mem : 0 ≤ parameter l.exactly r.exactly c.exactly (x : Exact) ∧
    parameter l.exactly r.exactly c.exactly (x : Exact) ≤ 1
  evaluate_mem : ((min (min l.y c.y) r.y : ℝ) : Exact) ≤ (bezier l r c).exactly.evaluate x ∧
    (bezier l r c).exactly.evaluate x ≤ ((max (max l.y c.y) r.y : ℝ) : Exact)
  parameter_safe : NoZeroDivision fun i =>
    @parameter Exact i l.exactly r.exactly c.exactly (x : Exact)
  evaluate_safe : NoZeroDivision fun i => @evaluate Exact i (bezier l r c).exactly (x : Exact)

theorem readsWithin (hl : l.x ≤ x) (hr : x ≤ r.x) : ReadsWithin l r c x where
  parameter_mem := by
    rw [parameter_exactly, Exact.zero_eq, Exact.one_eq, Exact.real_le, Exact.real_le]
    exact share_mem hl hr
  evaluate_mem := by
    rw [evaluate_exactly, Exact.real_le, Exact.real_le]
    exact height_arc_mem hl hr
  parameter_safe := noZeroDivision_parameter l r c x
  evaluate_safe := noZeroDivision_evaluate (bezier l r c) x

theorem parameter_mono (hl : l.x ≤ x) (hxy : x ≤ y) (hr : y ≤ r.x) :
    parameter l.exactly r.exactly c.exactly (x : Exact) ≤
      parameter l.exactly r.exactly c.exactly (y : Exact) := by
  rw [parameter_exactly, parameter_exactly, Exact.real_le]
  exact share_mono hl hxy hr

/-! ## Pieces -/

/-- A segment is an arc whose point at a parameter `u` is the point of another arc
    at the parameter `f u`. -/
def Along (s : Segment Exact) (l r c : Point Exact) (f : ℝ → ℝ) : Prop :=
  ∃ l' r' c', s = .bezier l' r' c' ∧ ∀ u : ℝ,
    arcPoint l' c' r' (u : Exact) = arcPoint l c r (f u : Exact)

theorem along_part {s t : ℝ} {f : ℝ → ℝ} (hf : ∀ u, f u = s + u * (t - s)) :
    (part l r c s t).exactly.Along l.exactly r.exactly c.exactly f := by
  refine ⟨_, _, _, rfl, fun u => ?_⟩
  rw [arcPoint_exactly, arcPoint_exactly, hf]
  exact congrArg Point.exactly (Point.ext (bend_part ..) (bend_part ..))

/-- Segments that lead from one point to another one without a gap. -/
def Leads {α : Type} (segments : List (Segment α)) (p q : Point α) : Prop :=
  segments.head?.map left = some p ∧ Connected segments ∧ segments.getLast?.map right = some q

/-- The piece of an arc in front of a parameter, unless it has no length. -/
noncomputable def front? (l r c : Point ℝ) (t : ℝ) : Option (Segment Exact) :=
  if 0 < t then some (part l r c 0 t).exactly else none

/-- The piece of an arc behind a parameter, unless it has no length. -/
noncomputable def back? (l r c : Point ℝ) (t : ℝ) : Option (Segment Exact) :=
  if t < 1 then some (part l r c t 1).exactly else none

variable {t : ℝ}

/-- Both pieces meet at the point of the parameter, and a single one is the whole
    arc. -/
theorem leads_pieces (h₀ : 0 ≤ t) (h₁ : t ≤ 1) :
    Leads ((front? l r c t).toList ++ (back? l r c t).toList) l.exactly r.exactly := by
  unfold front? back?
  rcases h₀.eq_or_lt with rfl | hpos
  · rw [if_neg (lt_irrefl 0), if_pos zero_lt_one, part_whole]
    exact ⟨rfl, .singleton _, rfl⟩
  · rcases h₁.eq_or_lt with rfl | hlt
    · rw [if_pos zero_lt_one, if_neg (lt_irrefl 1), part_whole]
      exact ⟨rfl, .singleton _, rfl⟩
    · have hstart := congrArg (fun p => some p.exactly) (Point.onArc_zero l c r)
      have hend := congrArg (fun p => some p.exactly) (Point.onArc_one l c r)
      rw [if_pos hpos, if_pos hlt]
      exact ⟨hstart, .cons_cons rfl (.singleton _), hend⟩

/-- What cutting an arc leaves: the pieces that have a length, from one end of the
    arc to the other and along the arc. -/
structure Cut (l r c : Point ℝ) (ratio : ℝ) (front back : Option (Segment Exact)) : Prop where
  front_iff : front.isSome = true ↔ 0 < ratio
  back_iff : back.isSome = true ↔ ratio < 1
  leads : Leads (front.toList ++ back.toList) l.exactly r.exactly
  front_along : ∀ s ∈ front, s.Along l.exactly r.exactly c.exactly fun u => ratio * u
  back_along : ∀ s ∈ back, s.Along l.exactly r.exactly c.exactly fun u => ratio + (1 - ratio) * u

theorem cut_pieces (h₀ : 0 ≤ t) (h₁ : t ≤ 1) : Cut l r c t (front? l r c t) (back? l r c t) where
  front_iff := by simp [front?]
  back_iff := by simp [back?]
  leads := leads_pieces h₀ h₁
  front_along := by
    intro s hs
    obtain ⟨-, hpart⟩ := Option.ite_none_right_eq_some.1 hs
    cases hpart
    exact along_part fun u => by ring
  back_along := by
    intro s hs
    obtain ⟨-, hpart⟩ := Option.ite_none_right_eq_some.1 hs
    cases hpart
    exact along_part fun u => by ring

/-- Over exact scalars an arc is read at its own parameters, which never decrease
    from one end to the other, to heights between those of its three points, and no
    division by zero is made for that. Cutting it at any ratio leaves the pieces
    that have a length. Nothing is asked of the control point, and of the ends only
    that they are in order, without which the arc covers no position. -/
theorem hull_and_pieces (l r c : Point ℝ) :
    (∀ x : ℝ, (bezier l r c).exactly.covers x = true → ReadsWithin l r c x) ∧
    (∀ x y : ℝ, (bezier l r c).exactly.covers x = true →
      (bezier l r c).exactly.covers y = true → x ≤ y →
      parameter l.exactly r.exactly c.exactly (x : Exact) ≤
        parameter l.exactly r.exactly c.exactly (y : Exact)) ∧
    ∀ ratio ∈ Set.Icc (0 : ℝ) 1, ∃ front back,
      (bezier l r c).exactly.split ratio = .ok (front, back) ∧ Cut l r c ratio front back := by
  simp only [covers_exactly]
  refine ⟨fun x hx => readsWithin hx.1 hx.2, fun x y hx hy hxy => parameter_mono hx.1 hxy hy.2,
    fun ratio hratio => ?_⟩
  exact ⟨_, _, split_arc l r c hratio, cut_pieces hratio.1 hratio.2⟩

/-- An arc whose control point is beyond its right end, read half way and at this
    end, and cut at a quarter. -/
theorem hull_and_pieces_bow :
    ((bow 2).exactly.covers (1 / 2 : ℝ) = true ∧ (bow 2).exactly.covers (1 : ℝ) = true) ∧
      (((0 : ℝ) : Exact) ≤ (bow 2).exactly.evaluate (1 : ℝ) ∧
        (bow 2).exactly.evaluate (1 : ℝ) ≤ ((1 : ℝ) : Exact)) ∧
      parameter (Point.exactly ⟨0, 0⟩) (Point.exactly ⟨1, 0⟩) (Point.exactly ⟨2, 1⟩)
        ((1 / 2 : ℝ) : Exact) ≤
        parameter (Point.exactly ⟨0, 0⟩) (Point.exactly ⟨1, 0⟩) (Point.exactly ⟨2, 1⟩)
          ((1 : ℝ) : Exact) ∧
      (1 / 4 : ℝ) ∈ Set.Icc (0 : ℝ) 1 ∧
      ∃ front back, (bow 2).exactly.split (1 / 4 : ℝ) = .ok (some front, some back) ∧
        front.left = Point.exactly ⟨0, 0⟩ ∧ front.right = back.left ∧
        back.right = Point.exactly ⟨1, 0⟩ := by
  obtain ⟨hread, hmono, hcut⟩ := hull_and_pieces ⟨0, 0⟩ ⟨1, 0⟩ ⟨2, 1⟩
  have hmiddle : (bow 2).exactly.covers (1 / 2 : ℝ) = true :=
    covers_exactly.2 ⟨one_half_pos.le, one_half_lt_one.le⟩
  have hright : (bow 2).exactly.covers (1 : ℝ) = true := covers_exactly.2 ⟨zero_le_one, le_rfl⟩
  have hratio : (1 / 4 : ℝ) ∈ Set.Icc (0 : ℝ) 1 := by norm_num
  have hlow : min (min (0 : ℝ) 1) 0 = 0 := by simp
  have hhigh : max (max (0 : ℝ) 1) 0 = 1 := by simp
  have hheight := (hread 1 hright).evaluate_mem
  rw [hlow, hhigh] at hheight
  obtain ⟨front, back, hsplit, cut⟩ := hcut (1 / 4) hratio
  obtain ⟨front, rfl⟩ := Option.isSome_iff_exists.1 (cut.front_iff.2 (by norm_num))
  obtain ⟨back, rfl⟩ := Option.isSome_iff_exists.1 (cut.back_iff.2 (by norm_num))
  obtain ⟨hstart, hmeet, hend⟩ := cut.leads
  exact ⟨⟨hmiddle, hright⟩, hheight, hmono _ _ hmiddle hright one_half_lt_one.le, hratio,
    front, back, hsplit, Option.some.inj hstart, (List.isChain_cons_cons.1 hmeet).1,
    Option.some.inj hend⟩

end FuzzyInference.Segment
