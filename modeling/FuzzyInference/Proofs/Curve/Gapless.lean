import FuzzyInference.Proofs.Curve.Totality

/-!
# Piecewise curves have no gap

Segments can be given in any order, overlapping or turned around. Stitching
makes each of them start at the point where the one before it ends, so the run
is connected from `x = 0` to `x = 1`; a segment that ends left of its start
covers nothing, but the ones around it cover what it leaves.

Results:

* `joinFrom_connected` and `closeEnd_connected`: what the two passes leave.
* `stitch_connected`: stitched segments are connected from `0` to `1`.
* `exists_gapless`: a piecewise curve has a height on all of `[0, 1]`, that
  of one of its segments.
-/

namespace FuzzyInference

open Scalar

variable {α : Type} [Scalar α]

namespace Segment

/-- Segments each of which starts at the point where the one before it ends. -/
abbrev Connected (segments : List (Segment α)) : Prop :=
  segments.IsChain fun s t => s.right = t.left

/-- Moving left ends connects the segments, beginning at the joint. -/
theorem joinFrom_connected {joint : Point α} {s : Segment α} {rest joined : List (Segment α)}
    (h : joinFrom joint (s :: rest) = (joined, none)) :
    Connected joined ∧ ∃ first tail, joined = first :: tail ∧ first.left = joint := by
  induction rest generalizing joint s joined with
  | nil =>
    obtain ⟨first, tail, hs, htail, rfl⟩ := joinFrom_cons.1 h
    cases htail
    exact ⟨.singleton first, first, [], rfl, left_setLeft hs⟩
  | cons t rest ih =>
    obtain ⟨first, tail, hs, htail, rfl⟩ := joinFrom_cons.1 h
    obtain ⟨hconnected, second, tail, rfl, hmeets⟩ := ih htail
    exact ⟨.cons_cons hmeets.symm hconnected, first, _, rfl, left_setLeft hs⟩

/-- Moving the last right end leaves the left ends, and the connections between
    segments. -/
theorem closeEnd_connected {first : Segment α} {tail closed : List (Segment α)}
    (hconnected : Connected (first :: tail)) (h : closeEnd (first :: tail) = (closed, none)) :
    Connected closed ∧ closed.head?.map left = some first.left ∧
      closed.getLast?.map (·.right.x) = some 1 := by
  induction tail generalizing first closed with
  | nil =>
    obtain ⟨last, hlast, rfl⟩ := closeEnd_single.1 h
    exact ⟨.singleton last, congrArg some (left_setRight hlast),
      congrArg (some ∘ Point.x) (right_setRight hlast)⟩
  | cons second tail ih =>
    obtain ⟨closed, hclosed, rfl⟩ := closeEnd_cons.1 h
    rw [Connected, List.isChain_cons_cons] at hconnected
    obtain ⟨hrest, hhead, hlast⟩ := ih hconnected.2 hclosed
    -- The rest is moved at its end only, so it still starts where the first segment ends.
    cases closed with
    | nil => cases hhead
    | cons second' closed =>
      have hmeets : first.right = second'.left := hconnected.1.trans (Option.some.inj hhead).symm
      exact ⟨.cons_cons hmeets hrest, rfl, hlast⟩

/-- Stitched segments are connected, start at `x = 0` and end at `x = 1`. -/
theorem stitch_connected {segments stitched : List (Segment α)} (hne : segments ≠ [])
    (h : stitch segments = (stitched, none)) :
    Connected stitched ∧ stitched.head?.map (·.left.x) = some 0 ∧
      stitched.getLast?.map (·.right.x) = some 1 := by
  cases segments with
  | nil => exact absurd rfl hne
  | cons s rest =>
    rcases hjoin : joinFrom ⟨0, s.evaluate 0⟩ (s :: rest) with ⟨joined, error⟩
    simp only [stitch, hjoin] at h
    cases error with
    | some e => cases h
    | none =>
      obtain ⟨hconnected, first, tail, rfl, hstart⟩ := joinFrom_connected hjoin
      obtain ⟨hclosed, hhead, hlast⟩ := closeEnd_connected hconnected h
      rw [hstart] at hhead
      refine ⟨hclosed, ?_, hlast⟩
      have hx := congrArg (Option.map Point.x) hhead
      rwa [Option.map_map] at hx

end Segment

namespace Curve

open Segment

/-- A piecewise curve made of connected segments from `x = 0` to `x = 1`, with a
    height everywhere between them. -/
structure Gapless (c : Curve α) (segments : List (Segment α)) : Prop where
  eq : c = .piecewise segments
  connected : Connected segments
  starts : segments.head?.map (·.left.x) = some 0
  ends : segments.getLast?.map (·.right.x) = some 1
  evaluate : ∀ x, 0 ≤ x → x ≤ 1 → ∃ s ∈ segments,
    s.covers x = true ∧ c.evaluate x = .ok (s.evaluate x)

variable [OrderedNumbers α]

/-- Where the segments of a chain are evaluated, one of them covers the position. -/
theorem exists_evaluate_of_chain {segments : List (Segment α)} (h : Chain 0 1 segments) {x : α}
    (h₀ : 0 ≤ x) (h₁ : x ≤ 1) : ∃ s ∈ segments, s.covers x = true ∧
      (Curve.piecewise segments).evaluate x = .ok (s.evaluate x) := by
  obtain ⟨s, hs, hcovers⟩ := h.exists_covers h₀ h₁
  have hfound : (segments.find? fun s => s.covers x).isSome = true :=
    List.find?_isSome.2 ⟨s, hs, hcovers⟩
  obtain ⟨t, ht⟩ := Option.isSome_iff_exists.1 hfound
  have hcovers' : t.covers x = true := by simpa using List.find?_some ht
  refine ⟨t, List.mem_of_find?_eq_some ht, hcovers', ?_⟩
  rw [evaluate_of_mem _ ⟨h₀, h₁⟩]
  simp [height, ht]

theorem gapless_of_stitch {segments stitched : List (Segment α)} (hne : segments ≠ [])
    (hnumbers : ∀ s ∈ segments, isNaN s.right.x = false) (h : stitch segments = (stitched, none)) :
    Gapless (.piecewise stitched) stitched := by
  obtain ⟨hconnected, hstarts, hends⟩ := stitch_connected hne h
  exact ⟨rfl, hconnected, hstarts, hends,
    fun _ h₀ h₁ => exists_evaluate_of_chain (stitch_chain hne hnumbers h) h₀ h₁⟩

/-- A piecewise curve that is made of any segments, or gets other ones, has no
    gap. -/
theorem exists_gapless {segments : List (Segment α)} {c : Curve α}
    (hnumbers : ∀ s ∈ segments, isNaN s.right.x = false)
    (h : ofSegments segments = .ok c ∨
      ∃ old, (Curve.piecewise old).replaceSegments segments = .ok c) :
    ∃ stitched, Gapless c stitched := by
  have hmade : ofSegments segments = .ok c := by
    rcases h with h | ⟨old, h⟩
    · exact h
    · exact h
  obtain ⟨run, stitched, hne, hrun, hstitch, rfl⟩ := exists_stitch_of_ofSegments hnumbers hmade
  exact ⟨stitched, gapless_of_stitch hne hrun hstitch⟩

/-- Three steps of which the second one, once it is stitched, runs from right to
    left. -/
def overlapping : List (Segment Float) :=
  [.step ⟨0.125, 0⟩ ⟨0.75, 1⟩ 0.25, .step ⟨0, 0⟩ ⟨0.5, 1⟩ 0.5, .step ⟨0.25, 0⟩ ⟨0.875, 1⟩ 0.75]

theorem exists_gapless_overlapping : (∀ s ∈ overlapping, isNaN s.right.x = false) ∧
    ∃ c, ofSegments overlapping = .ok c ∧ ∃ stitched, Gapless c stitched := by
  have hnumbers : ∀ s ∈ overlapping, isNaN s.right.x = false := by decide
  have hmade : ofSegments overlapping = .ok (.piecewise [.step ⟨0, 0.25⟩ ⟨0.75, 1⟩ 0.25,
      .step ⟨0.75, 1⟩ ⟨0.5, 1⟩ 0.5, .step ⟨0.5, 1⟩ ⟨1, 0.75⟩ 0.75]) := rfl
  exact ⟨hnumbers, _, hmade, exists_gapless hnumbers (.inl hmade)⟩

end Curve

end FuzzyInference
