import FuzzyInference.Curve.Basic
import FuzzyInference.Curve.Template
import FuzzyInference.Proofs.Error.Result
import FuzzyInference.Proofs.Scalar.Order

/-!
# Curves have a height everywhere

A shape given by a formula has a height at every position, a lookup table needs
heights to choose from, and a piecewise curve needs a segment at the position.
Stitching makes a chain of segments from `0` to `1`, and a chain has no gaps, so
every curve that comes from a constructor has a height on all of `[0, 1]`.

Results:

* `Chain.exists_covers`: a chain covers what lies between its ends.
* `stitch_chain`: stitched segments are a chain from `0` to `1`.
* `Made.isTotal` and `IsTotal.evaluate_iff`: a curve made by constructors has a
  height wherever the position is accepted.
-/

namespace FuzzyInference

open OrderedNumbers Scalar

variable {α : Type} [Scalar α]

/-! ## Chains of segments -/

namespace Segment

/-- Segments from `a` to `b`, each of which starts at the number where the one
    before it ends. -/
inductive Chain : α → α → List (Segment α) → Prop
  | single {a b : α} {s : Segment α} (hleft : s.left.x = a) (hright : s.right.x = b) : Chain a b [s]
  | cons {a b : α} {s : Segment α} {rest : List (Segment α)} (hleft : s.left.x = a)
    (hnumber : isNaN s.right.x = false) (h : Chain s.right.x b rest) : Chain a b (s :: rest)

/-- A chain has no gaps: a position is covered by the first segment that does not
    end before it. -/
theorem Chain.exists_covers [OrderedNumbers α] {a b : α} {segments : List (Segment α)}
    (h : Chain a b segments) {x : α} (ha : a ≤ x) (hb : x ≤ b) :
    ∃ s ∈ segments, s.covers x = true := by
  induction h with
  | @single a b s hleft hright => exact ⟨s, by simp, by simp [covers, hleft, hright, ha, hb]⟩
  | @cons a b s rest hleft hnumber _ ih =>
    rcases le_total (defined_of_le ha).2 hnumber with hin | hout
    · exact ⟨s, by simp, by simp [covers, hleft, ha, hin]⟩
    · obtain ⟨t, ht, hcovers⟩ := ih hout hb
      exact ⟨t, List.mem_cons_of_mem s ht, hcovers⟩

theorem joinFrom_cons {joint : Point α} {s : Segment α} {rest joined : List (Segment α)} :
    joinFrom joint (s :: rest) = (joined, none) ↔ ∃ s' rest', s.setLeft joint = .ok s' ∧
      joinFrom s'.right rest = (rest', none) ∧ joined = s' :: rest' := by
  rw [joinFrom]
  cases hs : s.setLeft joint with
  | error e => simp
  | ok s' =>
    rcases hrest : joinFrom s'.right rest with ⟨rest', error⟩
    simp [hrest, eq_comm, and_comm]

theorem joinFrom_chain {joint : Point α} {s : Segment α} {rest joined : List (Segment α)}
    (hnumbers : ∀ t ∈ s :: rest, isNaN t.right.x = false)
    (h : joinFrom joint (s :: rest) = (joined, none)) : ∃ b, Chain joint.x b joined := by
  induction rest generalizing joint s joined with
  | nil =>
    obtain ⟨s', rest', hs, hrest, rfl⟩ := joinFrom_cons.1 h
    cases hrest
    exact ⟨s'.right.x, .single (congrArg Point.x (left_setLeft hs)) rfl⟩
  | cons t rest ih =>
    obtain ⟨s', rest', hs, hrest, rfl⟩ := joinFrom_cons.1 h
    obtain ⟨b, hchain⟩ := ih (fun u hu => hnumbers u (List.mem_cons_of_mem s hu)) hrest
    have hnumber : isNaN s'.right.x = false := right_setLeft hs ▸ hnumbers s (by simp)
    exact ⟨b, .cons (congrArg Point.x (left_setLeft hs)) hnumber hchain⟩

theorem closeEnd_single {s : Segment α} {closed : List (Segment α)} :
    closeEnd [s] = (closed, none) ↔ ∃ s', s.setRight ⟨1, s.evaluate 1⟩ = .ok s' ∧
    closed = [s'] := by
  rw [closeEnd]
  cases s.setRight ⟨1, s.evaluate 1⟩ <;> simp [eq_comm]

theorem closeEnd_cons {s t : Segment α} {rest closed : List (Segment α)} :
    closeEnd (s :: t :: rest) = (closed, none) ↔ ∃ rest', closeEnd (t :: rest) = (rest', none) ∧
      closed = s :: rest' := by
  rw [closeEnd]
  rcases closeEnd (t :: rest) with ⟨rest', error⟩
  simp [eq_comm, and_comm]

theorem closeEnd_chain {a b : α} {segments closed : List (Segment α)} (hchain : Chain a b segments)
    (h : closeEnd segments = (closed, none)) : Chain a 1 closed := by
  induction hchain generalizing closed with
  | single hleft hright =>
    obtain ⟨s', hs, rfl⟩ := closeEnd_single.1 h
    have hstart : s'.left.x = _ := congrArg Point.x (left_setRight hs)
    exact .single (hstart.trans hleft) (congrArg Point.x (right_setRight hs))
  | @cons a b s rest hleft hnumber hrest ih =>
    cases rest with
    | nil => cases hrest
    | cons t rest =>
      obtain ⟨rest', hclosed, rfl⟩ := closeEnd_cons.1 h
      exact .cons hleft hnumber (ih hclosed)

/-- Stitched segments are a chain from `0` to `1`. -/
theorem stitch_chain {segments stitched : List (Segment α)} (hne : segments ≠ [])
    (hnumbers : ∀ s ∈ segments, isNaN s.right.x = false)
    (h : stitch segments = (stitched, none)) : Chain 0 1 stitched := by
  cases segments with
  | nil => exact absurd rfl hne
  | cons first rest =>
    rcases hjoin : joinFrom ⟨0, first.evaluate 0⟩ (first :: rest) with ⟨joined, error⟩
    simp only [stitch, hjoin] at h
    cases error with
    | some e => cases h
    | none =>
      obtain ⟨b, hchain⟩ := joinFrom_chain hnumbers hjoin
      exact closeEnd_chain hchain h

end Segment

/-! ## Positions and tables -/

/-- A position that is accepted, after drift is taken off, lies in the unit
    interval. -/
theorem mem_of_inUnit [OrderedNumbers α] {x y : α} (h : inUnit x = .ok y) : 0 ≤ y ∧ y ≤ 1 := by
  unfold inUnit within at h
  split at h
  · rename_i hx
    cases h
    exact hx
  · split at h
    · cases h
      exact ⟨le_self isNaN_zero, OrderedNumbers.zero_le_one⟩
    · split at h
      · cases h
        exact ⟨OrderedNumbers.zero_le_one, le_self isNaN_one⟩
      · cases h

theorem interpolate?_of_ne_nil {heights : List α} (h : heights ≠ []) (x : α) :
    ∃ y, interpolate? x heights = some y := by
  match heights with
  | [] => exact absurd rfl h
  | [y] => exact ⟨y, rfl⟩
  | y₀ :: y₁ :: ys =>
    simp only [interpolate?]
    split
    · exact ⟨_, rfl⟩
    · rename_i hmissing
      refine (hmissing _ _ (List.getElem?_eq_getElem ?_) (List.getElem?_eq_getElem ?_)).elim
      · simp only [List.length_cons]
        omega
      · simp only [List.length_cons]
        omega

namespace Curve

/-! ## Heights -/

/-- Whether a curve's shape is given by a formula, and not by segments or a
    table. -/
def isFormula : Curve α → Bool
  | .piecewise _ | .lookup _ => false
  | _ => true

/-- What a curve needs to have a height on all of `[0, 1]`: a piecewise one segments
    without a gap, and a table a height. -/
def IsTotal : Curve α → Prop
  | .piecewise segments => Segment.Chain 0 1 segments
  | .lookup heights => heights ≠ []
  | _ => True

theorem isTotal_of_isFormula {c : Curve α} (h : c.isFormula = true) : c.IsTotal := by
  cases c with
  | piecewise | lookup => cases h
  | _ => trivial

theorem IsTotal.height_eq_ok [OrderedNumbers α] {c : Curve α} (h : c.IsTotal) {x : α}
    (hx : 0 ≤ x ∧ x ≤ 1) : ∃ y, c.height x = .ok y := by
  cases c with
  | piecewise segments =>
    obtain ⟨s, hs, hcovers⟩ := h.exists_covers hx.1 hx.2
    have hfound : (segments.find? fun s => s.covers x).isSome = true :=
      List.find?_isSome.2 ⟨s, hs, hcovers⟩
    obtain ⟨t, ht⟩ := Option.isSome_iff_exists.1 hfound
    exact ⟨t.evaluate x, by simp [height, ht]⟩
  | lookup heights =>
    obtain ⟨y, hy⟩ := interpolate?_of_ne_nil h x
    exact ⟨y, by simp [height, hy]⟩
  | _ => exact ⟨_, rfl⟩

/-- A curve that is defined on `[0, 1]` has a height wherever the position is
    accepted. -/
theorem IsTotal.evaluate_iff [OrderedNumbers α] {c : Curve α} (h : c.IsTotal) (x : α) :
    (∃ y, c.evaluate x = .ok y) ↔ ∃ y, inUnit x = .ok y := by
  unfold evaluate
  constructor
  · rintro ⟨y, hy⟩
    obtain ⟨x', hx', -⟩ := bind_eq_ok.1 hy
    exact ⟨x', hx'⟩
  · rintro ⟨x', hx'⟩
    obtain ⟨y, hy⟩ := h.height_eq_ok (mem_of_inUnit hx')
    exact ⟨y, bind_eq_ok.2 ⟨x', hx', hy⟩⟩

/-- A curve without a height is outside of its domain, has a gap or an empty
    table. -/
theorem evaluate_eq_error {c : Curve α} {x : α} {e : Error α} (h : c.evaluate x = .error e) :
    (∃ value lo hi, e = .outOfDomain value lo hi) ∨ (∃ fault, e = .segment fault) ∨
      e = .argument .tooFewSamples := by
  rcases bind_eq_error.1 h with h | ⟨x', -, h⟩
  · left
    unfold inUnit within at h
    split at h
    · cases h
    · split at h
      · cases h
      · split at h <;> cases h
        exact ⟨_, _, _, rfl⟩
  · right
    cases c with
    | piecewise segments =>
      simp only [height] at h
      split at h <;> cases h
      exact .inl ⟨_, rfl⟩
    | lookup heights =>
      simp only [height] at h
      split at h <;> cases h
      exact .inr rfl
    | _ => cases h

/-! ## Constructors -/

/-- The curves that are made by the constructors, from segments that end at
    numbers. -/
inductive Made : Curve α → Prop
  | formula {c : Curve α} (h : c.isFormula = true) : Made c
  | ofSegments {segments : List (Segment α)} {c : Curve α}
    (hnumbers : ∀ s ∈ segments, isNaN s.right.x = false) (h : ofSegments segments = .ok c) : Made c
  | replaceSegments {c d : Curve α} {segments : List (Segment α)} (hc : Made c)
    (hnumbers : ∀ s ∈ segments, isNaN s.right.x = false) (h : c.replaceSegments segments = .ok d) :
    Made d
  | ofHeights {heights : List α} {c : Curve α} (h : ofHeights heights = .ok c) : Made c
  | bake {c d : Curve α} {samples : Nat} (hc : Made c) (h : c.bake samples = .ok d) : Made d
  | spread {c d : Curve α} {count : Nat} {overlap : α} {toEdges : Bool} {copies : List (Curve α)}
    (hc : Made c) (h : c.spread count overlap toEdges = .ok copies) (hd : d ∈ copies) : Made d

theorem ofSegments_nil :
    ofSegments ([] : List (Segment α)) = Segment.line ⟨0, 0⟩ ⟨1, 0⟩ >>= fun flat =>
      ofSegments [flat] :=
  rfl

theorem ofSegments_cons {s : Segment α} {rest : List (Segment α)} {c : Curve α} :
    ofSegments (s :: rest) = .ok c ↔
      ∃ stitched, Segment.stitch (s :: rest) = (stitched, none) ∧ c = .piecewise stitched := by
  constructor
  · intro h
    rcases hstitch : Segment.stitch (s :: rest) with ⟨stitched, error⟩
    cases error with
    | some e =>
      simp [ofSegments, hstitch, bind, Except.bind, pure, Except.pure, throw, throwThe,
        MonadExceptOf.throw] at h
    | none =>
      rw [ofSegments_eq_ok (by simp) hstitch] at h
      cases h
      exact ⟨stitched, rfl, rfl⟩
  · rintro ⟨stitched, hstitch, rfl⟩
    exact ofSegments_eq_ok (by simp) hstitch

/-- The flat segment ends at one of the two ends of the interval. -/
theorem isNaN_flat [OrderedNumbers α] {flat : Segment α}
    (h : Segment.line ⟨0, 0⟩ ⟨1, 0⟩ = .ok flat) : isNaN flat.right.x = false := by
  obtain ⟨⟨l, r⟩, hends, h⟩ := bind_eq_ok.1 h
  cases h
  unfold Segment.ordered at hends
  split at hends
  · cases hends
  · split at hends <;> cases hends
    · exact isNaN_one
    · exact isNaN_zero

/-- A curve that is made of any segments is a stitched run of at least one of them,
    be it the flat segment that stands in for none. -/
theorem exists_stitch_of_ofSegments [OrderedNumbers α] {segments : List (Segment α)} {c : Curve α}
    (hnumbers : ∀ s ∈ segments, isNaN s.right.x = false) (h : ofSegments segments = .ok c) :
    ∃ run stitched, run ≠ [] ∧ (∀ s ∈ run, isNaN s.right.x = false) ∧
      Segment.stitch run = (stitched, none) ∧ c = .piecewise stitched := by
  cases segments with
  | cons s rest =>
    obtain ⟨stitched, hstitch, rfl⟩ := ofSegments_cons.1 h
    exact ⟨s :: rest, stitched, by simp, hnumbers, hstitch, rfl⟩
  | nil =>
    obtain ⟨flat, hflat, h⟩ := bind_eq_ok.1 (ofSegments_nil.symm.trans h)
    obtain ⟨stitched, hstitch, rfl⟩ := ofSegments_cons.1 h
    exact ⟨[flat], stitched, by simp, by simpa using isNaN_flat hflat, hstitch, rfl⟩

theorem isTotal_ofSegments [OrderedNumbers α] {segments : List (Segment α)} {c : Curve α}
    (hnumbers : ∀ s ∈ segments, isNaN s.right.x = false) (h : ofSegments segments = .ok c) :
    c.IsTotal := by
  obtain ⟨run, stitched, hne, hrun, hstitch, rfl⟩ := exists_stitch_of_ofSegments hnumbers h
  exact Segment.stitch_chain hne hrun hstitch

theorem mem_of_mapM {β γ : Type} {f : β → Option γ} {xs : List β} {ys : List γ}
    (h : xs.mapM f = some ys) {y : γ} (hy : y ∈ ys) : ∃ x ∈ xs, f x = some y := by
  induction xs generalizing ys with
  | nil =>
    cases h
    cases hy
  | cons x xs ih =>
    simp only [List.mapM_cons, bind, Option.bind_eq_some_iff, pure, Option.some.injEq] at h
    obtain ⟨z, hz, zs, hzs, rfl⟩ := h
    rcases List.mem_cons.1 hy with rfl | hy
    · exact ⟨x, by simp, hz⟩
    · obtain ⟨x', hx', hx⟩ := ih hzs hy
      exact ⟨x', List.mem_cons_of_mem x hx', hx⟩

theorem isFormula_copyAt? {c d : Curve α} {count : Nat} {overlap step mid : α}
    (h : c.copyAt? count overlap step mid = some d) : d.isFormula = true := by
  cases c <;> cases h <;> rfl

theorem isFormula_spread {c d : Curve α} {count : Nat} {overlap : α} {toEdges : Bool}
    {copies : List (Curve α)} (h : c.spread count overlap toEdges = .ok copies) (hd : d ∈ copies) :
    d.isFormula = true := by
  unfold spread at h
  split at h
  · cases h
  · dsimp only at h
    split at h
    · rename_i hcopies
      cases h
      obtain ⟨i, -, hi⟩ := mem_of_mapM hcopies hd
      exact isFormula_copyAt? hi
    · cases h

/-- A curve made by the constructors has a height on all of `[0, 1]`. -/
theorem Made.isTotal [OrderedNumbers α] {c : Curve α} (h : c.Made) : c.IsTotal := by
  induction h with
  | formula h => exact isTotal_of_isFormula h
  | ofSegments hnumbers h => exact isTotal_ofSegments hnumbers h
  | @replaceSegments c d segments hc hnumbers h ih =>
    cases c with
    | piecewise => exact isTotal_ofSegments hnumbers h
    | _ => cases h
  | @ofHeights heights c h =>
    unfold Curve.ofHeights at h
    split at h
    · cases h
    · cases h
      rename_i hlength
      rintro rfl
      simp at hlength
  | @bake c d samples hc h ih =>
    unfold Curve.bake at h
    split at h
    · cases h
    · rename_i hsamples
      obtain ⟨heights, hheights, h⟩ := bind_eq_ok.1 h
      cases h
      have hlength := (mapM_eq_ok.1 hheights).length_eq
      rintro rfl
      rw [length_grid] at hlength
      simp at hlength
      omega
  | spread hc h hd ih => exact isTotal_of_isFormula (isFormula_spread h hd)

end Curve

end FuzzyInference
