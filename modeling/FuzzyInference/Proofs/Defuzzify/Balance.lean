import FuzzyInference.Proofs.Implication.Range

/-!
# Where the bisector stops

The bisector looks for the sample at which the sums of heights up to it and from
it on are nearest to each other. It walks from left to right and stops where
they have met, or before they move apart for the first time.

That stop is as good as any sample. The difference of the two sums grows from
sample to sample, so its size falls while it is negative and rises once it is
positive: behind the first rise nothing is lower again. The walk has no result
only if the sums never meet and never move apart.

Results:

* `valley_abs`: the size of what never falls does not dip behind a rise.
* `balancePoint_least`: over such sizes the walk stops at the least of them.
* `balancePoint_eq_error`: it has no result if they are positive and never rise.
* `reduce_bisector_balanced`: the bisector of samples of positive total height.
-/

namespace FuzzyInference.Method

open Scalar

/-! ## Sums of heights -/

/-- The sum of heights up to a sample less the one from the sample on. -/
noncomputable def excess (ys : List ℝ) (i : ℕ) : ℝ := (ys.take (i + 1)).sum - (ys.drop i).sum

/-- How far apart the sums of heights up to a sample and from the sample on are. -/
noncomputable def imbalance (ys : List ℝ) (i : ℕ) : ℝ := |excess ys i|

theorem prefixSums_real (acc : ℝ) (ys : List ℝ) : prefixSums (acc : Exact) (ys.map Exact.real) =
    ((List.range ys.length).map fun i => acc + (ys.take (i + 1)).sum).map Exact.real := by
  induction ys generalizing acc with
  | nil => rfl
  | cons y ys ih =>
    rw [List.map_cons, prefixSums, Exact.real_add, ih, List.length_cons, List.range_succ_eq_map]
    simp [Function.comp_def, add_assoc]

/-- The sums from the samples on are running sums from the far end. -/
theorem reverse_prefixSums_real (ys : List ℝ) :
    (prefixSums 0 (ys.map Exact.real).reverse).reverse =
      ((List.range ys.length).map fun i => (ys.drop i).sum).map Exact.real := by
  rw [← List.map_reverse, Exact.zero_eq, prefixSums_real, ← List.map_reverse, List.length_reverse]
  congr 1
  refine List.ext_getElem (by simp) fun i hi _ => ?_
  have hi : i < ys.length := by simpa using hi
  have hplace : ys.length - (ys.length - 1 - i + 1) = i := by omega
  simp [List.take_reverse, List.sum_reverse, hplace]

theorem imbalances_real (ys : List ℝ) :
    imbalances (ys.map Exact.real) =
      ((List.range ys.length).map (imbalance ys)).map Exact.real := by
  unfold imbalances
  dsimp only
  rw [reverse_prefixSums_real, Exact.zero_eq, prefixSums_real, List.map_map, List.map_map,
    List.zipWith_map, List.zipWith_self, List.map_map]
  refine List.map_congr_left fun i _ => ?_
  simp [imbalance, excess]

section

variable {ys : List ℝ} (hnonneg : ∀ y ∈ ys, 0 ≤ y)

include hnonneg

/-- Every sample moves height from one side to the other. -/
theorem excess_mono {i j : ℕ} (hij : i ≤ j) : excess ys i ≤ excess ys j := by
  have hleft : (ys.take (i + 1)).sum ≤ (ys.take (j + 1)).sum :=
    (List.take_sublist_take_left (by omega)).sum_le_sum fun y hy =>
      hnonneg y (List.mem_of_mem_take hy)
  have hright : (ys.drop j).sum ≤ (ys.drop i).sum :=
    (List.drop_sublist_drop_left ys hij).sum_le_sum fun y hy => hnonneg y (List.mem_of_mem_drop hy)
  unfold excess
  linarith

theorem imbalance_le_sum (i : ℕ) : imbalance ys i ≤ ys.sum := by
  have hleft : (ys.take (i + 1)).sum ≤ ys.sum := (List.take_sublist _ ys).sum_le_sum hnonneg
  have hright : (ys.drop i).sum ≤ ys.sum := (List.drop_sublist i ys).sum_le_sum hnonneg
  have hleft' : 0 ≤ (ys.take (i + 1)).sum :=
    List.sum_nonneg fun y hy => hnonneg y (List.mem_of_mem_take hy)
  have hright' : 0 ≤ (ys.drop i).sum :=
    List.sum_nonneg fun y hy => hnonneg y (List.mem_of_mem_drop hy)
  rw [imbalance, excess, abs_le]
  constructor <;> linarith

end

/-! ## Valleys -/

/-- Behind the first rise of some numbers nothing is lower than its upper end. -/
def Valley (last : ℝ) : List ℝ → Prop
  | [] => True
  | d :: ds => (last < d → ∀ c ∈ ds, d ≤ c) ∧ Valley d ds

/-- A number that never falls may fall in size as long as it is negative only. -/
theorem valley_abs {e : ℝ} {es : List ℝ} (h : (e :: es).Pairwise (· ≤ ·)) :
    Valley |e| (es.map (|·|)) := by
  induction es generalizing e with
  | nil => trivial
  | cons e' es ih =>
    obtain ⟨hhead, htail⟩ := List.pairwise_cons.1 h
    refine ⟨fun (hrise : |e| < |e'|) => ?_, ih htail⟩
    have hle : e ≤ e' := hhead e' List.mem_cons_self
    have hpositive : 0 ≤ e' := by
      by_contra hneg
      have hneg : e' < 0 := not_le.1 hneg
      rw [abs_of_neg hneg, abs_of_neg (hle.trans_lt hneg)] at hrise
      linarith
    refine List.forall_mem_map.2 fun c hc => ?_
    have hc : e' ≤ c := (List.pairwise_cons.1 htail).1 c hc
    change |e'| ≤ |c|
    rwa [abs_of_nonneg hpositive, abs_of_nonneg (hpositive.trans hc)]

/-- The imbalances of heights make a valley, behind anything that is not lower than
    all of them. -/
theorem valley_imbalances {ys : List ℝ} (hnonneg : ∀ y ∈ ys, 0 ≤ y) {start : ℝ}
    (hstart : ys.sum ≤ start) : Valley start ((List.range ys.length).map (imbalance ys)) := by
  have hsorted : ((List.range ys.length).map (excess ys)).Pairwise (· ≤ ·) :=
    List.pairwise_map.2 (List.pairwise_lt_range.imp fun h => excess_mono hnonneg h.le)
  have hsizes : (List.range ys.length).map (imbalance ys) =
      ((List.range ys.length).map (excess ys)).map (|·|) := by
    rw [List.map_map]
    rfl
  rw [hsizes]
  cases hlength : ys.length with
  | zero => trivial
  | succ n =>
    rw [hlength, List.range_succ_eq_map, List.map_cons] at hsorted
    rw [List.range_succ_eq_map, List.map_cons, List.map_cons]
    refine ⟨fun hrise => ?_, valley_abs hsorted⟩
    exact absurd ((imbalance_le_sum hnonneg 0).trans hstart) hrise.not_ge

/-! ## The walk -/

/-- Where imbalances make a valley, the walk stops at a least one. -/
theorem balancePoint_least {samples : List (ℝ × ℝ)} {previous lastImbalance : ℝ} {x : Exact}
    (hvalley : Valley lastImbalance (samples.map (·.2)))
    (hnonneg : ∀ s ∈ (previous, lastImbalance) :: samples, 0 ≤ s.2)
    (h : balancePoint (previous : Exact) lastImbalance (exactly samples) = .ok x) :
    ∃ s ∈ (previous, lastImbalance) :: samples, x = s.1 ∧
      ∀ u ∈ (previous, lastImbalance) :: samples, s.2 ≤ u.2 := by
  induction samples generalizing previous lastImbalance with
  | nil => cases h
  | cons s rest ih =>
    obtain ⟨p, d⟩ := s
    obtain ⟨hrise, hvalley⟩ := hvalley
    change balancePoint (previous : Exact) lastImbalance
      (((p : Exact), (d : Exact)) :: exactly rest) =
      .ok x at h
    simp only [balancePoint, Exact.zero_eq, Exact.real_beq, Exact.real_lt] at h
    by_cases hzero : d = 0
    · -- the sums have met, and no imbalance is less than none
      rw [if_pos hzero] at h
      cases h
      refine ⟨(p, d), by simp, rfl, fun u hu => ?_⟩
      rw [hzero]
      exact hnonneg u hu
    · rw [if_neg hzero] at h
      by_cases hlt : lastImbalance < d
      · rw [if_pos hlt] at h
        cases h
        refine ⟨(previous, lastImbalance), by simp, rfl, fun u hu => ?_⟩
        rcases List.mem_cons.1 hu with rfl | hu
        · exact le_rfl
        · rcases List.mem_cons.1 hu with rfl | hu
          · exact hlt.le
          · exact hlt.le.trans (hrise hlt u.2 (List.mem_map_of_mem hu))
      · rw [if_neg hlt] at h
        obtain ⟨s, hs, hx, hleast⟩ :=
          ih hvalley (fun u hu => hnonneg u (List.mem_cons_of_mem _ hu)) h
        refine ⟨s, List.mem_cons_of_mem _ hs, hx, fun u hu => ?_⟩
        rcases List.mem_cons.1 hu with rfl | hu
        · exact (hleast (p, d) List.mem_cons_self).trans (not_lt.1 hlt)
        · exact hleast u hu

/-- The walk runs off the end if no imbalance is zero and none is greater than the
    one before it. -/
theorem balancePoint_eq_error {samples : List (ℝ × ℝ)} {previous lastImbalance : ℝ} :
    balancePoint (previous : Exact) lastImbalance (exactly samples) =
        .error (.computation .bisectorNotFound) ↔
      (∀ s ∈ samples, s.2 ≠ 0) ∧ (lastImbalance :: samples.map (·.2)).IsChain (· ≥ ·) := by
  induction samples generalizing previous lastImbalance with
  | nil => simp [exactly, balancePoint]
  | cons s rest ih =>
    obtain ⟨p, d⟩ := s
    change balancePoint (previous : Exact) lastImbalance
      (((p : Exact), (d : Exact)) :: exactly rest) = _ ↔ _
    simp only [balancePoint, Exact.zero_eq, Exact.real_beq, Exact.real_lt, List.map_cons,
      List.isChain_cons_cons, List.forall_mem_cons]
    by_cases hzero : d = 0
    · simp [hzero]
    · rw [if_neg hzero]
      by_cases hlt : lastImbalance < d
      · simp [hlt]
      · rw [if_neg hlt, ih]
        have hge : lastImbalance ≥ d := not_lt.1 hlt
        rw [and_iff_right hzero, and_iff_right hge]

/-! ## The bisector -/

/-- The positions of samples, with the imbalances there. -/
noncomputable def balances (xs ys : List ℝ) : List (ℝ × ℝ) :=
  xs.zip ((List.range ys.length).map (imbalance ys))

theorem mem_balances {xs ys : List ℝ} {s : ℝ × ℝ} :
    s ∈ balances xs ys ↔ ∃ i < ys.length, xs[i]? = some s.1 ∧ imbalance ys i = s.2 := by
  rw [balances, List.mem_iff_getElem?]
  constructor
  · rintro ⟨i, hi⟩
    obtain ⟨hposition, himbalance⟩ := List.getElem?_zip_eq_some.1 hi
    rw [List.getElem?_map] at himbalance
    obtain ⟨k, hk, himbalance⟩ := Option.map_eq_some_iff.1 himbalance
    obtain ⟨hlt, rfl⟩ := List.getElem?_eq_some_iff.1 hk
    rw [List.getElem_range] at himbalance
    exact ⟨i, by simpa using hlt, hposition, himbalance⟩
  · rintro ⟨i, hi, hposition, himbalance⟩
    exact ⟨i, List.getElem?_zip_eq_some.2 ⟨hposition, by simp [hi, himbalance]⟩⟩

theorem map_snd_balances {xs ys : List ℝ} (hlength : xs.length = ys.length) :
    (balances xs ys).map (·.2) = (List.range ys.length).map (imbalance ys) :=
  List.map_snd_zip (by simp [hlength])

/-- Every sample has an imbalance. -/
theorem balance_mem {xs ys : List ℝ} (hlength : xs.length = ys.length) {i : ℕ}
    (hi : i < ys.length) : (xs[i], imbalance ys i) ∈ balances xs ys :=
  mem_balances.2 ⟨i, hi, List.getElem?_eq_getElem _, rfl⟩

theorem forall_balances_ne_zero {xs ys : List ℝ} (hlength : xs.length = ys.length) :
    (∀ s ∈ balances xs ys, s.2 ≠ 0) ↔ ∀ i < ys.length, 0 < imbalance ys i := by
  constructor
  · intro h i hi
    exact (abs_nonneg _).lt_of_ne' (h _ (balance_mem hlength hi))
  · intro h s hs
    obtain ⟨i, hi, -, hs⟩ := mem_balances.1 hs
    rw [← hs]
    exact (h i hi).ne'

/-- The imbalances fall if each is at most the one before it, and the first one at
    most what the walk starts with. -/
theorem isChain_balances {xs ys : List ℝ} (hlength : xs.length = ys.length) {start : ℝ}
    (hstart : ∀ i, imbalance ys i ≤ start) : (start :: (balances xs ys).map (·.2)).IsChain (· ≥ ·) ↔
      ∀ i, i + 1 < ys.length → imbalance ys (i + 1) ≤ imbalance ys i := by
  have hhead : ∀ d ∈ ((List.range ys.length).map (imbalance ys)).head?, start ≥ d := by
    intro d hd
    obtain ⟨i, -, rfl⟩ := List.mem_map.1 (List.mem_of_mem_head? hd)
    exact hstart i
  rw [map_snd_balances hlength, List.isChain_cons, List.isChain_map, List.isChain_range]
  simp only [Nat.lt_sub_iff_add_lt]
  exact and_iff_right hhead

theorem bisectorOf_cons {α : Type} [Scalar α] (s : α × α) (rest : List (α × α)) :
    bisectorOf (s :: rest) =
      if ((s :: rest).map (·.2)).foldl (· + ·) 0 == 0 then .ok none
      else (balancePoint s.1
        (((s :: rest).map (·.2)).foldl (· + ·) 0 + ((s :: rest).map (·.2)).foldl (· + ·) 0)
        (((s :: rest).map (·.1)).zip (imbalances ((s :: rest).map (·.2))))).map some := by
  unfold bisectorOf
  dsimp only
  congr 1

/-- Over some height the bisector is where the walk along the imbalances stops. -/
theorem reduce_bisector_walk {x : ℝ} {xs ys : List ℝ} (hlength : (x :: xs).length = ys.length)
    (htotal : ys.sum ≠ 0) : bisector.reduce ((x :: xs).map Exact.real) (ys.map Exact.real) =
      (balancePoint (x : Exact) ((ys.sum + ys.sum : ℝ) : Exact)
        (exactly (balances (x :: xs) ys))).map some := by
  have hlengths : ((x :: xs).map Exact.real).length = (ys.map Exact.real).length := by
    simpa using hlength
  have hsum : (ys.map Exact.real).foldl (· + ·) 0 = ((ys.sum : ℝ) : Exact) := by
    rw [Exact.zero_eq, foldl_add_real, zero_add]
  have hsome : ¬ ((ys.sum : Exact) == (0 : Exact)) = true := by simpa using htotal
  have hpositions := List.map_fst_zip hlengths.le
  have hheights := List.map_snd_zip hlengths.ge
  obtain ⟨y, rest, rfl⟩ := List.exists_cons_of_length_eq_add_one hlength.symm
  rw [reduce_bisector, balances, ← zip_exactly, ← imbalances_real]
  rw [List.map_cons, List.map_cons, List.zip_cons_cons] at hpositions hheights ⊢
  rw [bisectorOf_cons, hpositions, hheights, ← List.map_cons, ← List.map_cons, hsum, if_neg hsome,
    Exact.real_add]

/-- Twice the total is more than any imbalance. -/
theorem imbalance_lt_total {ys : List ℝ} (hnonneg : ∀ y ∈ ys, 0 ≤ y) (htotal : 0 < ys.sum) (i : ℕ) :
    imbalance ys i < ys.sum + ys.sum :=
  (imbalance_le_sum hnonneg i).trans_lt (by linarith)

/-- A walk over samples that starts with twice the total stops at a sample of least
    imbalance. -/
theorem balancePoint_balances {x : ℝ} {xs ys : List ℝ} (hlength : (x :: xs).length = ys.length)
    (hnonneg : ∀ y ∈ ys, 0 ≤ y) (htotal : 0 < ys.sum) {found : Exact}
    (h : balancePoint (x : Exact) ((ys.sum + ys.sum : ℝ) : Exact)
      (exactly (balances (x :: xs) ys)) =
      .ok found) :
    ∃ (j : ℕ) (p : ℝ), (x :: xs)[j]? = some p ∧ found = (p : Exact) ∧
      ∀ i < ys.length, imbalance ys j ≤ imbalance ys i := by
  have hvalley : Valley (ys.sum + ys.sum) ((balances (x :: xs) ys).map (·.2)) := by
    rw [map_snd_balances hlength]
    exact valley_imbalances hnonneg (by linarith)
  have hsizes : ∀ s ∈ (x, ys.sum + ys.sum) :: balances (x :: xs) ys, 0 ≤ s.2 := by
    refine List.forall_mem_cons.2 ⟨by linarith, fun s hs => ?_⟩
    obtain ⟨i, -, -, hi⟩ := mem_balances.1 hs
    rw [← hi]
    exact abs_nonneg _
  obtain ⟨s, hs, hfound, hleast⟩ := balancePoint_least hvalley hsizes h
  have hall : ∀ i < ys.length, s.2 ≤ imbalance ys i := fun i hi =>
    hleast _ (List.mem_cons_of_mem _ (balance_mem hlength hi))
  rcases List.mem_cons.1 hs with rfl | hs
  · have hsome : 0 < ys.length := hlength ▸ Nat.succ_pos _
    exact absurd (hall 0 hsome) (imbalance_lt_total hnonneg htotal 0).not_ge
  · obtain ⟨j, -, hposition, hj⟩ := mem_balances.1 hs
    rw [← hj] at hall
    exact ⟨j, s.1, hposition, hfound, hall⟩

/-- The bisector of samples of positive total height is a sample of least imbalance,
    or is not found; it is not found if no imbalance is zero and each is at most the
    one before it. -/
theorem reduce_bisector_balanced {xs ys : List ℝ} (hlength : xs.length = ys.length)
    (hnonneg : ∀ y ∈ ys, 0 ≤ y) (htotal : 0 < ys.sum) :
    ((∃ (j : ℕ) (x : ℝ), xs[j]? = some x ∧
        bisector.reduce (xs.map Exact.real) (ys.map Exact.real) = .ok (some (x : Exact)) ∧
        ∀ i < ys.length, imbalance ys j ≤ imbalance ys i) ∨
      bisector.reduce (xs.map Exact.real) (ys.map Exact.real) =
        .error (.computation .bisectorNotFound)) ∧
    (bisector.reduce (xs.map Exact.real) (ys.map Exact.real) =
      .error (.computation .bisectorNotFound) ↔
      (∀ i < ys.length, 0 < imbalance ys i) ∧
        ∀ i, i + 1 < ys.length → imbalance ys (i + 1) ≤ imbalance ys i) := by
  obtain ⟨x, xs, rfl⟩ : ∃ x xs', xs = x :: xs' := by
    refine List.exists_cons_of_ne_nil ?_
    rintro rfl
    rw [List.eq_nil_of_length_eq_zero hlength.symm, List.sum_nil] at htotal
    exact lt_irrefl 0 htotal
  rw [reduce_bisector_walk hlength htotal.ne']
  constructor
  · cases hwalk : balancePoint (x : Exact) ((ys.sum + ys.sum : ℝ) : Exact)
      (exactly (balances (x :: xs) ys)) with
    | error e =>
      right
      rw [eq_notFound_of_balancePoint hwalk]
      rfl
    | ok found =>
      left
      obtain ⟨j, p, hposition, rfl, hleast⟩ := balancePoint_balances hlength hnonneg htotal hwalk
      exact ⟨j, p, hposition, rfl, hleast⟩
  · have hstart : ∀ i, imbalance ys i ≤ ys.sum + ys.sum :=
      fun i => (imbalance_lt_total hnonneg htotal i).le
    rw [← forall_balances_ne_zero hlength, ← isChain_balances hlength hstart,
      ← balancePoint_eq_error]
    cases balancePoint (x : Exact) ((ys.sum + ys.sum : ℝ) : Exact)
      (exactly (balances (x :: xs) ys)) <;>
      simp [Except.map]

/-- Two units of height in front of one and one are balanced at the middle
    sample. -/
theorem reduce_bisector_falling : [(0 : ℝ), 1, 2].length = [(2 : ℝ), 1, 1].length ∧
    (∀ y ∈ [(2 : ℝ), 1, 1], 0 ≤ y) ∧ 0 < [(2 : ℝ), 1, 1].sum ∧
    bisector.reduce ([(0 : ℝ), 1, 2].map Exact.real) ([(2 : ℝ), 1, 1].map Exact.real) =
      .ok (some ((1 : ℝ) : Exact)) := by
  have hlength : [(0 : ℝ), 1, 2].length = [(2 : ℝ), 1, 1].length := rfl
  have hnonneg : ∀ y ∈ [(2 : ℝ), 1, 1], 0 ≤ y := by norm_num
  have htotal : 0 < [(2 : ℝ), 1, 1].sum := by norm_num
  have h0 : imbalance [2, 1, 1] 0 = 2 := by norm_num [imbalance, excess]
  have h1 : imbalance [2, 1, 1] 1 = 1 := by norm_num [imbalance, excess]
  have h2 : imbalance [2, 1, 1] 2 = 3 := by norm_num [imbalance, excess]
  refine ⟨hlength, hnonneg, htotal, ?_⟩
  obtain ⟨⟨j, x, hposition, hfound, hleast⟩ | herror, hfailed⟩ :=
    reduce_bisector_balanced hlength hnonneg htotal
  · have hj := hleast 1 (by decide)
    rw [h1] at hj
    match j with
    | 0 => norm_num [h0] at hj
    | 1 => rwa [← Option.some.inj hposition] at hfound
    | 2 => norm_num [h2] at hj
    | j + 3 => cases hposition
  · have hfalling := (hfailed.1 herror).2 1 (by decide)
    norm_num [h1, h2] at hfalling

end FuzzyInference.Method
