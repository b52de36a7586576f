import FuzzyInference.Error.Basic
import Mathlib.Data.List.Forall2

/-!
# Results of steps and runs

A computation that can fail is a sequence of steps and of runs over lists, each
of which stops at its first error.

Arithmetic, curves and calls fail on account of the numbers they are given. A
computation that is put together from such steps fails in no other way; above
all, it misses no name.

Results:

* `bind_eq_ok` and `bind_eq_error`: where a result or an error of two steps
  comes from.
* `forM_eq_ok`, `mapM_eq_ok` and `mapM_eq_error`: the same for a run over a list.
* `numeric_bind`, `numeric_map` and `numeric_mapM`: computations that fail on account
  of numbers, in steps.
-/

namespace FuzzyInference

variable {ε β γ : Type}

/-- A step that follows another one has a result exactly if both have one. -/
theorem bind_eq_ok {x : Except ε β} {f : β → Except ε γ} {c : γ} :
    x >>= f = .ok c ↔ ∃ b, x = .ok b ∧ f b = .ok c := by
  cases x with
  | error e => simp [bind, Except.bind]
  | ok b => simp [bind, Except.bind]

theorem bind_eq_error {x : Except ε β} {f : β → Except ε γ} {e : ε} :
    x >>= f = .error e ↔ x = .error e ∨ ∃ b, x = .ok b ∧ f b = .error e := by
  cases x with
  | error e' => simp [bind, Except.bind]
  | ok b => simp [bind, Except.bind]

theorem exists_ok_or_error (x : Except ε β) : (∃ b, x = .ok b) ∨ ∃ e, x = .error e := by
  cases x with
  | error e => exact .inr ⟨e, rfl⟩
  | ok b => exact .inl ⟨b, rfl⟩

/-- A check of every member passes exactly if each member passes. -/
theorem forM_eq_ok {f : β → Except ε Unit} {xs : List β} :
    xs.forM f = .ok () ↔ ∀ x ∈ xs, f x = .ok () := by
  induction xs with
  | nil => simp [List.forM, pure, Except.pure]
  | cons x xs ih =>
    have hstep : (x :: xs).forM f = f x >>= fun _ => xs.forM f := rfl
    rw [hstep, bind_eq_ok, List.forall_mem_cons, ← ih]
    constructor
    · rintro ⟨⟨⟩, hx, hxs⟩
      exact ⟨hx, hxs⟩
    · rintro ⟨hx, hxs⟩
      exact ⟨(), hx, hxs⟩

variable {f : β → Except ε γ}

theorem mapM_eq_ok {xs : List β} {ys : List γ} :
    xs.mapM f = .ok ys ↔ List.Forall₂ (fun x y => f x = .ok y) xs ys := by
  induction xs generalizing ys with
  | nil => cases ys <;> simp [pure, Except.pure]
  | cons x xs ih =>
    rw [List.mapM_cons, List.forall₂_cons_left_iff, bind_eq_ok]
    constructor
    · rintro ⟨y, hy, h⟩
      obtain ⟨zs, hzs, h⟩ := bind_eq_ok.1 h
      cases h
      exact ⟨y, zs, hy, ih.1 hzs, rfl⟩
    · rintro ⟨y, zs, hy, hzs, rfl⟩
      exact ⟨y, hy, bind_eq_ok.2 ⟨zs, ih.2 hzs, rfl⟩⟩

/-- Each member of a list has a partner in a list that is related to it
    pointwise. -/
theorem exists_mem_of_forall₂ {R : β → γ → Prop} {xs : List β} {ys : List γ}
    (h : List.Forall₂ R xs ys) {x : β} (hx : x ∈ xs) : ∃ y ∈ ys, R x y := by
  induction h with
  | nil => cases hx
  | @cons x' y xs ys hxy _ ih =>
    rcases List.mem_cons.1 hx with rfl | hx
    · exact ⟨y, List.mem_cons_self, hxy⟩
    · obtain ⟨y', hy', hxy'⟩ := ih hx
      exact ⟨y', List.mem_cons_of_mem y hy', hxy'⟩

/-- Each result of a run is the result of a member. -/
theorem mem_of_mapM_eq_ok {xs : List β} {ys : List γ} (h : xs.mapM f = .ok ys) {y : γ}
    (hy : y ∈ ys) : ∃ x ∈ xs, f x = .ok y :=
  exists_mem_of_forall₂ (mapM_eq_ok.1 h).flip hy

/-- The result of a member is among the results of a run. -/
theorem exists_mem_of_mapM_eq_ok {xs : List β} {ys : List γ} (h : xs.mapM f = .ok ys) {x : β}
    (hx : x ∈ xs) : ∃ y ∈ ys, f x = .ok y :=
  exists_mem_of_forall₂ (mapM_eq_ok.1 h) hx

/-- The error of a run is the error of a member. -/
theorem mapM_eq_error {xs : List β} {e : ε} (h : xs.mapM f = .error e) :
    ∃ x ∈ xs, f x = .error e := by
  induction xs with
  | nil => cases h
  | cons x xs ih =>
    rw [List.mapM_cons, bind_eq_error] at h
    rcases h with hx | ⟨y, -, h⟩
    · exact ⟨x, by simp, hx⟩
    · rcases bind_eq_error.1 h with hxs | ⟨ys, -, h⟩
      · obtain ⟨x', hx', hfail⟩ := ih hxs
        exact ⟨x', List.mem_cons_of_mem x hx', hfail⟩
      · cases h

theorem exists_mapM_eq_ok {xs : List β} :
    (∃ ys, xs.mapM f = .ok ys) ↔ ∀ x ∈ xs, ∃ y, f x = .ok y := by
  constructor
  · rintro ⟨ys, h⟩ x hx
    obtain ⟨y, -, hy⟩ := exists_mem_of_mapM_eq_ok h hx
    exact ⟨y, hy⟩
  · intro h
    rcases exists_ok_or_error (xs.mapM f) with hok | ⟨e, herror⟩
    · exact hok
    · obtain ⟨x, hx, hfail⟩ := mapM_eq_error herror
      obtain ⟨y, hy⟩ := h x hx
      rw [hfail] at hy
      cases hy

/-! ## Errors about numbers -/

variable {α : Type}

/-- An error about the numbers that are there. -/
def Error.IsNumeric : Error α → Prop
  | .argument _ | .arithmetic _ | .computation _ | .outOfDomain .. | .segment _ => True
  | _ => False

/-- Every error of a result is about numbers. -/
def Numeric (r : Result α β) : Prop := ∀ e, r = .error e → e.IsNumeric

theorem numeric_ok (b : β) : Numeric (.ok b : Result α β) := nofun

theorem numeric_error {e : Error α} (h : e.IsNumeric) : Numeric (.error e : Result α β) := by
  rintro _ ⟨⟩
  exact h

theorem numeric_bind {r : Result α β} {f : β → Result α γ} (hr : Numeric r)
    (hf : ∀ b, Numeric (f b)) : Numeric (r >>= f) := by
  intro e he
  rcases bind_eq_error.1 he with h | ⟨b, -, h⟩
  · exact hr e h
  · exact hf b e h

theorem numeric_map {r : Result α β} {f : β → γ} (h : Numeric r) : Numeric (f <$> r) := by
  intro e he
  cases r with
  | error e' =>
    cases he
    exact h e rfl
  | ok b => cases he

theorem numeric_mapM {f : β → Result α γ} {xs : List β} (h : ∀ x ∈ xs, Numeric (f x)) :
    Numeric (xs.mapM f) := by
  intro e he
  obtain ⟨x, hx, hfail⟩ := mapM_eq_error he
  exact h x hx e hfail

theorem Numeric.not_missing {r : Result α β} (h : Numeric r) (name : String) :
    r ≠ .error (.missingValue name) := fun he => h _ he

end FuzzyInference
