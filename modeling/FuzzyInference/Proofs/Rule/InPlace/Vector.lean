import FuzzyInference.Error.Compile

/-!
# Vectors that are changed in place

A compiler that folds a vector of items in place reads, removes and inserts at
positions that it computes, and loops until a position has reached the end. Such
a run can give a result or a fault of the text, it can use a position that the
vector does not have, and it can go on for ever. A list stands for the vector,
every use of a position is checked, and a loop is the least fixed point of its
body, so all four can happen here as well.

Results:

* `ofExcept_bind`: runs that only give results and faults come one after the other.
* `index_append`, `remove_append`, `replace_append`, `drain_append`, `slice_append` and
  `splitOff_append`: what is done at a position inside of the vector.
-/

namespace FuzzyInference.InPlace

/-! ## Runs -/

/-- Why a run stops before its result. -/
inductive Stop where
  | fault (f : CompileFault)
  | outOfBounds

/-- What is run on vectors. A run that does not end is `none`. -/
abbrev Run (β : Type) : Type := ExceptT Stop Option β

variable {β γ : Type}

/-- Stops with a fault of the text. -/
def fail (f : CompileFault) : Run β := throw (.fault f)

/-- A run that ends in bounds, with a result or a fault of the text. -/
def ofExcept : Except CompileFault β → Run β
  | .ok b => pure b
  | .error f => fail f

@[simp] theorem ofExcept_ok (b : β) : ofExcept (.ok b) = pure b := rfl

@[simp] theorem ofExcept_pure (b : β) : ofExcept (pure b) = pure b := rfl

@[simp] theorem ofExcept_error (f : CompileFault) :
    ofExcept (.error f : Except CompileFault β) = fail f := rfl

@[simp] theorem fail_bind (f : CompileFault) (k : β → Run γ) :
    (fail f : Run β) >>= k = fail f := rfl

theorem ofExcept_bind (x : Except CompileFault β) (k : β → Except CompileFault γ) :
    ofExcept (x >>= k) = ofExcept x >>= fun b => ofExcept (k b) := by
  cases x <;> rfl

theorem ofExcept_map (x : Except CompileFault β) (f : β → γ) :
    ofExcept (x.map f) = ofExcept x >>= fun b => pure (f b) := by
  cases x <;> rfl

/-- Whether a run ends, and never uses a position that its vector does not have. -/
def Safe (x : Run β) : Prop := (∃ b, x.run = some (.ok b)) ∨ ∃ f, x.run = some (.error (.fault f))

theorem safe_ofExcept (x : Except CompileFault β) : Safe (ofExcept x) := by
  cases x with
  | ok b => exact .inl ⟨b, rfl⟩
  | error f => exact .inr ⟨f, rfl⟩

/-! ## Positions -/

/-- The element at a position. -/
def index (xs : List β) (i : Nat) : Run β :=
  match xs[i]? with
  | some x => pure x
  | none => throw .outOfBounds

/-- Takes the element at a position out. -/
def remove (xs : List β) (i : Nat) : Run (β × List β) :=
  match xs[i]? with
  | some x => pure (x, xs.eraseIdx i)
  | none => throw .outOfBounds

/-- Takes the element at a position out and puts the last one there. -/
def swapRemove (xs : List β) (i : Nat) : Run (β × List β) :=
  match xs[i]?, xs.getLast? with
  | some x, some last => pure (x, (xs.set i last).dropLast)
  | _, _ => throw .outOfBounds

/-- Puts an element in front of a position, or at the end. -/
def insert (xs : List β) (i : Nat) (x : β) : Run (List β) :=
  if i ≤ xs.length then pure (xs.insertIdx i x) else throw .outOfBounds

/-- Overwrites the element at a position. -/
def replace (xs : List β) (i : Nat) (x : β) : Run (List β) :=
  if i < xs.length then pure (xs.set i x) else throw .outOfBounds

/-- Takes the elements from one position up to another out. -/
def drain (xs : List β) (i j : Nat) : Run (List β) :=
  if i ≤ j ∧ j ≤ xs.length then pure (xs.take i ++ xs.drop j) else throw .outOfBounds

/-- The elements from one position up to another. -/
def slice (xs : List β) (i j : Nat) : Run (List β) :=
  if i ≤ j ∧ j ≤ xs.length then pure ((xs.take j).drop i) else throw .outOfBounds

/-- The elements before a position and those from it on. -/
def splitOff (xs : List β) (i : Nat) : Run (List β × List β) :=
  if i ≤ xs.length then pure (xs.take i, xs.drop i) else throw .outOfBounds

/-- A vector and a position in it. -/
structure Cursor (β : Type) where
  items : List β
  place : Nat

/-- The position some places before another. -/
def back (i n : Nat) : Run Nat := if n ≤ i then pure (i - n) else throw .outOfBounds

/-! ## Positions that there are -/

@[simp] theorem index_append (xs zs : List β) (y : β) :
    index (xs ++ y :: zs) xs.length = pure y := by
  simp [index]

@[simp] theorem remove_append (xs zs : List β) (y : β) :
    remove (xs ++ y :: zs) xs.length = pure (y, xs ++ zs) := by
  simp [remove, List.eraseIdx_append_of_length_le]

@[simp] theorem remove_append_succ (xs zs : List β) (y z : β) :
    remove (xs ++ y :: z :: zs) (xs.length + 1) = pure (z, xs ++ y :: zs) := by
  simp [remove, List.eraseIdx_append_of_length_le]

@[simp] theorem replace_append (xs zs : List β) (y x : β) :
    replace (xs ++ y :: zs) xs.length x = pure (xs ++ x :: zs) := by
  simp [replace]

theorem insert_append (xs zs : List β) (x : β) :
    insert (xs ++ zs) xs.length x = pure (xs ++ x :: zs) := by
  have hinsert : (xs ++ zs).insertIdx xs.length x = xs ++ x :: zs := by
    induction xs with
    | nil => exact List.insertIdx_zero
    | cons y ys ih =>
      rw [List.cons_append, List.length_cons, List.insertIdx_succ_cons, ih, List.cons_append]
  rw [insert, if_pos (by simp), hinsert]

theorem slice_append (xs ys zs : List β) :
    slice (xs ++ (ys ++ zs)) xs.length (xs.length + ys.length) = pure ys := by
  have htake : (xs ++ (ys ++ zs)).take (xs.length + ys.length) = xs ++ ys := by
    rw [← List.append_assoc, ← List.length_append, List.take_left]
  rw [slice, if_pos (by simp), htake, List.drop_left]

theorem drain_append (xs ys zs : List β) :
    drain (xs ++ (ys ++ zs)) xs.length (xs.length + ys.length) = pure (xs ++ zs) := by
  have hdrop : (xs ++ (ys ++ zs)).drop (xs.length + ys.length) = zs := by
    rw [← List.append_assoc, ← List.length_append, List.drop_left]
  rw [drain, if_pos (by simp), hdrop, List.take_left]

theorem splitOff_append (xs ys : List β) : splitOff (xs ++ ys) xs.length = pure (xs, ys) := by
  simp [splitOff]

/-! ## Positions behind elements that are kept in reverse -/

@[simp] theorem index_passed (passed zs : List β) (y : β) :
    index (passed.reverse ++ y :: zs) passed.length = pure y := by
  rw [← List.length_reverse, index_append]

@[simp] theorem index_back (passed zs : List β) (x : β) :
    index ((x :: passed).reverse ++ zs) passed.length = pure x := by
  rw [List.reverse_cons, List.append_assoc, List.singleton_append, index_passed]

@[simp] theorem remove_passed (passed zs : List β) (y : β) :
    remove (passed.reverse ++ y :: zs) passed.length = pure (y, passed.reverse ++ zs) := by
  rw [← List.length_reverse, remove_append]

@[simp] theorem remove_passed_succ (passed zs : List β) (y z : β) :
    remove (passed.reverse ++ y :: z :: zs) (passed.length + 1) =
      pure (z, passed.reverse ++ y :: zs) := by
  rw [← List.length_reverse, remove_append_succ]

@[simp] theorem replace_back (passed zs : List β) (x y : β) :
    replace ((x :: passed).reverse ++ zs) passed.length y = pure ((y :: passed).reverse ++ zs) := by
  rw [List.reverse_cons, List.append_assoc, List.singleton_append, ← List.length_reverse,
    replace_append]
  simp

@[simp] theorem drain_passed_two (passed zs : List β) (y z : β) :
    drain (passed.reverse ++ y :: z :: zs) passed.length (passed.length + 2) =
      pure (passed.reverse ++ zs) := by
  rw [← List.length_reverse]
  exact drain_append passed.reverse [y, z] zs

@[simp] theorem back_succ (i : Nat) : back (i + 1) 1 = pure i := by simp [back]

end FuzzyInference.InPlace
