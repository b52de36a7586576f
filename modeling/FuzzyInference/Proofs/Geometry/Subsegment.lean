import FuzzyInference.Proofs.Geometry.Exact

/-!
# Parts of segments

The part of a line or a step between two positions has their heights, and the
part of a Bezier arc is the same arc between the parameters of both positions.
But a position leads to another position on the arc, unless the control point is
half way between the ends, so the part of another arc does not lie between the
two positions, and gives other heights.

Results:

* `subsegment_arc`: the part of an arc, by the parameters of its ends.
* `subsegment_follows`: which parts lie between their positions and follow the
  segment there.
-/

namespace FuzzyInference.Segment

open Arc

variable {s t : Segment Exact} {l r c : Point ℝ} {x₁ x₂ : ℝ}

/-- A segment lies between two positions, and has the heights of another one
    there. -/
def Follows (t s : Segment Exact) (x₁ x₂ : ℝ) : Prop :=
  t.left.x = x₁ ∧ t.right.x = x₂ ∧ ∀ x : ℝ, x₁ ≤ x → x ≤ x₂ → t.evaluate x = s.evaluate x

theorem follows_exactly {t s : Segment ℝ} :
    t.exactly.Follows s.exactly x₁ x₂ ↔
      t.left.x = x₁ ∧ t.right.x = x₂ ∧ ∀ x, x₁ ≤ x → x ≤ x₂ → t.height x = s.height x := by
  simp only [Follows, left_exactly, right_exactly, Point.x_exactly, evaluate_exactly,
    Exact.real.injEq]

/-! ## Parts by kind -/

/-- A part is cut between positions that the segment covers. Of a line or a step,
    its constructor makes it. -/
theorem subsegment_cases (hle : x₁ ≤ x₂) (h : s.subsegment x₁ x₂ = .ok t) :
    (s.covers x₁ = true ∧ s.covers x₂ = true) ∧
      (∀ l r, s = .linear l r →
        line ⟨(x₁ : Exact), s.evaluate x₁⟩ ⟨(x₂ : Exact), s.evaluate x₂⟩ = .ok t) ∧
      ∀ l r height, s = .step l r height →
        stair ⟨(x₁ : Exact), height⟩ ⟨(x₂ : Exact), height⟩ (some height) = .ok t := by
  unfold subsegment at h
  rw [if_pos (Exact.real_le.2 hle)] at h
  dsimp only at h
  have hinside : (!s.covers x₁ || !s.covers x₂) = false := by
    by_contra houtside
    rw [if_pos (Bool.not_eq_false _ ▸ houtside)] at h
    cases h
  rw [hinside, if_neg Bool.false_ne_true] at h
  refine ⟨by simpa using hinside, ?_, ?_⟩
  · rintro l r rfl
    exact h
  · rintro l r height rfl
    exact h

/-- The part of a line is the line between its points at both positions. -/
theorem subsegment_line (hle : x₁ ≤ x₂) (h : (linear l r).exactly.subsegment x₁ x₂ = .ok t) :
    t = (linear ⟨x₁, (linear l r).height x₁⟩ ⟨x₂, (linear l r).height x₂⟩).exactly := by
  obtain ⟨-, hline, -⟩ := subsegment_cases hle h
  obtain ⟨ends, hends, ht⟩ := bind_eq_ok.1 (hline _ _ rfl)
  rw [evaluate_exactly, evaluate_exactly] at hends
  rw [ordered_exactly (p := ⟨x₁, _⟩) (q := ⟨x₂, _⟩) hends, if_pos hle] at ht
  cases ht
  rfl

/-- The part of a step is a step of the same height. -/
theorem subsegment_stair {height : ℝ} (hle : x₁ ≤ x₂)
    (h : (step l r height).exactly.subsegment x₁ x₂ = .ok t) :
    t = (step ⟨x₁, height⟩ ⟨x₂, height⟩ height).exactly := by
  obtain ⟨-, -, hstair⟩ := subsegment_cases hle h
  obtain ⟨ends, hends, ht⟩ := bind_eq_ok.1 (hstair _ _ _ rfl)
  rw [ordered_exactly (p := ⟨x₁, _⟩) (q := ⟨x₂, _⟩) hends, if_pos hle] at ht
  cases ht
  rfl

/-- The part of an arc between two positions is its part between their
    parameters. -/
theorem subsegment_arc (hl : l.x ≤ x₁) (hlt : x₁ < x₂) (hr : x₂ ≤ r.x) :
    (Segment.bezier l r c).exactly.subsegment x₁ x₂ =
      .ok (part l r c (share l.x c.x r.x x₁) (share l.x c.x r.x x₂)).exactly := by
  have h₁ : (Segment.bezier l r c).exactly.covers x₁ = true :=
    covers_exactly.2 ⟨hl, hlt.le.trans hr⟩
  have h₂ : (Segment.bezier l r c).exactly.covers x₂ = true :=
    covers_exactly.2 ⟨hl.trans hlt.le, hr⟩
  obtain ⟨hstart, -⟩ := share_mem (c := c.x) hl (hlt.le.trans hr)
  obtain ⟨-, hend⟩ := share_mem (c := c.x) (hl.trans hlt.le) hr
  have hshares : share l.x c.x r.x x₁ < share l.x c.x r.x x₂ := share_strictMono hl hlt hr
  unfold subsegment
  rw [if_pos (Exact.real_le.2 hlt.le)]
  dsimp only
  rw [if_neg (by rw [h₁, h₂]; decide)]
  change ((Segment.bezier l r c).exactly.split
    (parameter l.exactly r.exactly c.exactly x₂) >>= _) = _
  rw [parameter_exactly, parameter_exactly]
  generalize share l.x c.x r.x x₁ = t₁ at *
  generalize share l.x c.x r.x x₂ = t₂ at *
  have hpos : 0 < t₂ := hstart.trans_lt hshares
  refine bind_eq_ok.2 ⟨_, split_arc l r c ⟨hpos.le, hend⟩, ?_⟩
  rw [if_pos hpos]
  change (if (t₁ : Exact) ≤ 0 then pure (part l r c 0 t₂).exactly else _) = _
  by_cases hzero : t₁ ≤ 0
  · rw [if_pos (by simpa using hzero), hzero.antisymm hstart]
    rfl
  · have hratio : t₁ / t₂ < 1 := (div_lt_one hpos).2 hshares
    have hback : part (.onArc l c r 0) (.onArc l c r t₂) (.onPolar l c r 0 t₂) (t₁ / t₂) 1 =
        part l r c t₁ t₂ := by
      rw [part_part, sub_zero, zero_add, zero_add, one_mul, div_mul_cancel₀ t₁ hpos.ne']
    rw [if_neg (by simpa using hzero), Exact.real_div _ hpos.ne']
    refine bind_eq_ok.2 ⟨_, split_arc _ _ _ ⟨div_nonneg hstart hpos.le, hratio.le⟩, ?_⟩
    rw [if_pos hratio, hback]
    rfl

/-! ## Following a segment -/

theorem follows_line (h₁ : l.x ≤ x₁) (hlt : x₁ < x₂) (h₂ : x₂ ≤ r.x) :
    (linear ⟨x₁, (linear l r).height x₁⟩ ⟨x₂, (linear l r).height x₂⟩).exactly.Follows
      (linear l r).exactly
      x₁ x₂ := by
  rw [follows_exactly]
  refine ⟨rfl, rfl, fun x _ _ => ?_⟩
  have hwidth : r.x - l.x ≠ 0 := by linarith
  have hpart : x₂ - x₁ ≠ 0 := (sub_pos.2 hlt).ne'
  simp only [height, if_neg (sub_ne_zero.1 hwidth), if_neg (sub_ne_zero.1 hpart)]
  field_simp
  ring

/-- The part of an arc with its control point half way between the ends follows the
    arc. -/
theorem follows_part (h₁ : l.x ≤ x₁) (hlt : x₁ < x₂) (h₂ : x₂ ≤ r.x)
    (hmiddle : 2 * c.x = l.x + r.x) :
    (part l r c (share l.x c.x r.x x₁) (share l.x c.x r.x x₂)).exactly.Follows
      (bezier l r c).exactly x₁ x₂ := by
  have hlr : l.x < r.x := (h₁.trans_lt hlt).trans_le h₂
  have hr₁ : x₁ ≤ r.x := hlt.le.trans h₂
  have hl₂ : l.x ≤ x₂ := h₁.trans hlt.le
  have hleft := (bend_share_eq_iff hlr h₁ hr₁).2 (.inl hmiddle)
  have hright := (bend_share_eq_iff hlr hl₂ h₂).2 (.inl hmiddle)
  rw [follows_exactly]
  refine ⟨hleft, hright, fun x hx₁ hx₂ => ?_⟩
  -- the control point of the part is half way between its ends as well
  have hcontrol := two_mul_polar hmiddle (share l.x c.x r.x x₁) (share l.x c.x r.x x₂)
  rw [hleft, hright] at hcontrol
  have hshare : share l.x c.x r.x x₁ + (x - x₁) / (x₂ - x₁) *
      (share l.x c.x r.x x₂ - share l.x c.x r.x x₁) =
      share l.x c.x r.x x := by
    have hwidth : r.x - l.x ≠ 0 := (sub_pos.2 hlr).ne'
    have hpart : x₂ - x₁ ≠ 0 := (sub_pos.2 hlt).ne'
    rw [share_of_middle hlr h₁ hr₁ hmiddle, share_of_middle hlr hl₂ h₂ hmiddle,
      share_of_middle hlr (h₁.trans hx₁) (hx₂.trans h₂) hmiddle]
    field_simp
    ring
  simp only [part, height, Point.onArc, Point.onPolar]
  rw [hleft, hright, share_of_middle hlt hx₁ hx₂ hcontrol, bend_part, hshare]

/-- Of the arcs that are not divided evenly, only the whole one follows itself. -/
theorem follows_part_iff (h₁ : l.x ≤ x₁) (hlt : x₁ < x₂) (h₂ : x₂ ≤ r.x) :
    (part l r c (share l.x c.x r.x x₁) (share l.x c.x r.x x₂)).exactly.Follows
      (bezier l r c).exactly x₁ x₂ ↔
      2 * c.x = l.x + r.x ∨ (x₁ = l.x ∧ x₂ = r.x ∧ l.x < c.x ∧ c.x < r.x) := by
  have hlr : l.x < r.x := (h₁.trans_lt hlt).trans_le h₂
  constructor
  · intro hfollows
    obtain ⟨hleft, hright, -⟩ := follows_exactly.1 hfollows
    rcases (bend_share_eq_iff hlr h₁ (hlt.le.trans h₂)).1 hleft with hmiddle | ⟨hx₁, hl⟩ | ⟨hx₁, -⟩
    · exact .inl hmiddle
    · rcases (bend_share_eq_iff hlr (h₁.trans hlt.le) h₂).1
        hright with hmiddle | ⟨hx₂, -⟩ | ⟨hx₂, hr⟩
      · exact .inl hmiddle
      · linarith
      · exact .inr ⟨hx₁, hx₂, hl, hr⟩
    · linarith
  · rintro (hmiddle | ⟨rfl, rfl, hl, hr⟩)
    · exact follows_part h₁ hlt h₂ hmiddle
    · rw [share_left hl, share_right hr, part_whole]
      exact ⟨rfl, rfl, fun _ _ _ => rfl⟩

/-- The part of a segment between two positions lies between them and follows the
    segment there, unless the segment is an arc whose control point is not half way
    between its ends. The part of an arc is the arc between the parameters of both
    positions in any case, but of the other arcs only the whole one lies where it
    should. -/
theorem subsegment_follows (hs : Constructed s) (hlt : x₁ < x₂) (h : s.subsegment x₁ x₂ = .ok t) :
    (t.Follows s x₁ x₂ ↔ ∀ l r c : Point ℝ, s = .bezier l.exactly r.exactly c.exactly →
      2 * c.x = l.x + r.x ∨ (x₁ = l.x ∧ x₂ = r.x ∧ l.x < c.x ∧ c.x < r.x)) ∧
    ∀ l r c : Point Exact, s = .bezier l r c → ∃ l' r' c', t = .bezier l' r' c' ∧ ∀ u : ℝ,
      arcPoint l' c' r' u =
        arcPoint l c r (parameter l r c x₁ + u * (parameter l r c x₂ - parameter l r c x₁)) := by
  obtain ⟨s, rfl, -⟩ := hs.exists_real
  obtain ⟨⟨hcovers₁, hcovers₂⟩, -⟩ := subsegment_cases hlt.le h
  have h₁ : s.left.x ≤ x₁ := (covers_exactly.1 hcovers₁).1
  have h₂ : x₂ ≤ s.right.x := (covers_exactly.1 hcovers₂).2
  cases s with
  | linear l r =>
    rw [subsegment_line hlt.le h]
    refine ⟨iff_of_true (follows_line h₁ hlt h₂) ?_, ?_⟩
    all_goals
      intro l' r' c' heq
      cases heq
  | step l r height =>
    rw [subsegment_stair hlt.le h]
    refine ⟨iff_of_true (follows_exactly.2 ⟨rfl, rfl, fun _ _ _ => rfl⟩) ?_, ?_⟩
    all_goals
      intro l' r' c' heq
      cases heq
  | bezier l r c =>
    change l.x ≤ x₁ at h₁
    change x₂ ≤ r.x at h₂
    rw [subsegment_arc h₁ hlt h₂] at h
    cases h
    constructor
    · rw [follows_part_iff h₁ hlt h₂, forall_bezier_iff]
    · intro l' r' c' heq
      cases heq
      refine ⟨_, _, _, rfl, fun u => ?_⟩
      rw [parameter_exactly, parameter_exactly, Exact.real_sub, Exact.real_mul, Exact.real_add,
        arcPoint_exactly, arcPoint_exactly]
      exact congrArg Point.exactly (Point.ext (bend_part ..) (bend_part ..))

/-- The arc from `(0, 0)` to `(1, 0)` with its control point at height one above a
    position. -/
def bow (x : ℝ) : Segment ℝ := .bezier ⟨0, 0⟩ ⟨1, 0⟩ ⟨x, 1⟩

theorem constructed_bow (x : ℝ) : Constructed (bow x).exactly :=
  constructed_bezier (l := ⟨0, 0⟩) (r := ⟨1, 0⟩) ⟨x, 1⟩ (by norm_num) (by norm_num)

/-- An even arc and its inner half. -/
theorem subsegment_follows_bow :
    ∃ t, Constructed (bow (1 / 2)).exactly ∧
      (bow (1 / 2)).exactly.subsegment (1 / 4 : ℝ) (3 / 4 : ℝ) = .ok t ∧
      t.Follows (bow (1 / 2)).exactly (1 / 4) (3 / 4) := by
  have hpart : (bow (1 / 2)).exactly.subsegment (1 / 4 : ℝ) (3 / 4 : ℝ) = _ :=
    subsegment_arc (by norm_num) (by norm_num) (by norm_num)
  refine ⟨_, constructed_bow _, hpart, ?_⟩
  refine (subsegment_follows (constructed_bow _) (by norm_num) hpart).1.2
    (forall_bezier_iff.2 (.inl ?_))
  norm_num

/-- The first three quarters of an arc that leans to the right end at another
    position. -/
theorem subsegment_leaning :
    Constructed (bow (3 / 4)).exactly ∧
      (bow (3 / 4)).exactly.subsegment (0 : ℝ) (3 / 4 : ℝ) =
        .ok (Segment.bezier ⟨0, 0⟩ ⟨5 / 8, 1 / 2⟩ ⟨3 / 8, 1 / 2⟩).exactly ∧
      ∀ t, (bow (3 / 4)).exactly.subsegment (0 : ℝ) (3 / 4 : ℝ) = .ok t →
        ¬ t.Follows (bow (3 / 4)).exactly 0 (3 / 4) := by
  have hpart : (bow (3 / 4)).exactly.subsegment (0 : ℝ) (3 / 4 : ℝ) = _ :=
    subsegment_arc le_rfl (by norm_num) (by norm_num)
  have hhalf : share 0 (3 / 4) 1 (3 / 4) = 1 / 2 := by
    rw [share_before (by norm_num) le_rfl]
    norm_num
  have hstart : share 0 (3 / 4) 1 0 = 0 := share_left (by norm_num)
  have hvalue : part ⟨0, 0⟩ ⟨1, 0⟩ ⟨3 / 4, 1⟩ 0 (1 / 2) =
      .bezier ⟨0, 0⟩ ⟨5 / 8, 1 / 2⟩ ⟨3 / 8, 1 / 2⟩ := by
    norm_num [part, Point.onArc, Point.onPolar, bend, polar]
  simp only [hstart, hhalf, hvalue] at hpart
  refine ⟨constructed_bow _, hpart, fun t ht hfollows => ?_⟩
  cases hpart.symm.trans ht
  have hright : (5 / 8 : ℝ) = 3 / 4 := Exact.real.inj hfollows.2.1
  norm_num at hright

end FuzzyInference.Segment
