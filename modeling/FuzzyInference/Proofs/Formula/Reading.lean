import FuzzyInference.Proofs.Formula.Grammar

/-!
# What the steps of the parser read

For each step of the parser, when it succeeds and with what: the tree it read
and the tokens it left, in terms of the steps that it takes itself. The grammar
is compared with these laws and never with the steps' own text.

Results:

* `operations_reads`, `climb_reads_operation`, `factor_reads_sign`,
  `power_reads_raised`, `arguments_reads_some` and their companions: one law for
  each way that a step can go.
* `Reads.unique`: a step reads one thing only.
-/

namespace FuzzyInference.Formula

variable {α : Type} [Scalar α]

/-- A step succeeded with a result and left tokens. -/
def Reads {β : Type} {P : List Token → Prop}
    (r : Except CompileFault (β × { rest : List Token // P rest })) (x : β)
    (rest : List Token) : Prop :=
  ∃ h, r = .ok (x, ⟨rest, h⟩)

section

variable {β : Type} {P : List Token → Prop}
  {r : Except CompileFault (β × { rest : List Token // P rest })}

theorem Reads.unique {x y : β} {rest rest' : List Token} (h : Reads r x rest)
    (h' : Reads r y rest') : x = y ∧ rest = rest' := by
  obtain ⟨_, hr⟩ := h
  obtain ⟨_, hr'⟩ := h'
  rw [hr] at hr'
  simpa using hr'

theorem Reads.rest {x : β} {rest : List Token} (h : Reads r x rest) : P rest := h.1

@[simp] theorem reads_error (fault : CompileFault) (x : β) (rest : List Token) :
    ¬ Reads (.error fault : Except CompileFault (β × { rest : List Token // P rest })) x rest := by
  rintro ⟨_, h⟩
  cases h

@[simp] theorem reads_ok (x y : β) (rest : List Token) (s : { rest : List Token // P rest }) :
    Reads (.ok (x, s)) y rest ↔ x = y ∧ s.1 = rest := by
  constructor
  · rintro ⟨_, h⟩
    cases h
    exact ⟨rfl, rfl⟩
  · rintro ⟨rfl, rfl⟩
    exact ⟨s.2, rfl⟩

end

/-! ## Operations of two operands -/

theorem operations_reads {least : Nat} {ts rest : List Token} {f : Formula α} :
    Reads (operations least ts) f rest ↔
      ∃ left mid, Reads (factor ts) left mid ∧ Reads (climb least left mid) f rest := by
  rw [operations]
  rcases hr : factor ts with e | ⟨left, mid, hmid⟩
  · simp
  · rcases hc : climb least left mid with e | ⟨g, last, hlast⟩ <;> simp [and_assoc, hc]

theorem climb_reads_nil {least : Nat} {left f : Formula α} {rest : List Token} :
    Reads (climb least left []) f rest ↔ left = f ∧ [] = rest := by
  rw [climb]
  simp

/-- Tokens that do not start with an operation of the strength asked for are left as
    they are. -/
theorem climb_reads_stop {least : Nat} {left f : Formula α} {ts rest : List Token}
    (h : WeakerThan least ts) : Reads (climb least left ts) f rest ↔ left = f ∧ ts = rest := by
  cases ts with
  | nil => exact climb_reads_nil
  | cons t ts =>
    rw [climb]
    rcases hop : operator? t.kind with _ | ⟨op, s⟩
    · simp
    · have hs : s < least := h t (by simp) op s hop
      simp [hs]

theorem climb_reads_operation {least s : Nat} {op : Operator} {left f : Formula α} {t : Token}
    {ts rest : List Token} (hop : operator? t.kind = some (op, s)) (hs : least ≤ s) :
    Reads (climb least left (t :: ts)) f rest ↔
      ∃ right mid, Reads (operations (s + 1) ts) right mid ∧
        Reads (climb least (.binary op left right) mid) f rest := by
  rw [climb]
  simp only [hop, Nat.not_lt.2 hs, ite_false]
  rcases hr : operations (s + 1) ts with e | ⟨right, mid, hmid⟩
  · simp
  · rcases hc : climb least (.binary op left right) mid with e | ⟨g, last, hlast⟩ <;>
      simp [and_assoc, hc]

/-! ## Signs and powers -/

theorem factor_reads_sign {s : Sign} {f : Formula α} {t : Token} {ts rest : List Token}
    (hs : signOf? t.kind = some s) :
    Reads (factor (t :: ts)) f rest ↔ ∃ g, Reads (factor ts) g rest ∧ .sign s g = f := by
  rw [factor]
  simp only [hs]
  rcases hr : factor ts with e | ⟨g, mid, hmid⟩
  · simp
  · simp [and_assoc, and_comm]

theorem factor_reads_power {f : Formula α} {ts rest : List Token}
    (hs : ∀ t ∈ ts.head?, signOf? t.kind = none) :
    Reads (factor ts) f rest ↔ Reads (power ts) f rest := by
  cases ts with
  | nil => rw [factor]
  | cons t ts =>
    rw [factor]
    have ht : signOf? t.kind = none := hs t (by simp)
    simp only [ht]

/-- Tokens that do not start with the operation of powers. -/
def NotRaised (ts : List Token) : Prop := ∀ t ∈ ts.head?, t.kind ≠ .power

theorem atom_of_power {f : Formula α} {ts rest : List Token} (h : Reads (power ts) f rest) :
    ∃ (base : Formula α) (mid : List Token), Reads (atom ts) base mid := by
  rw [power] at h
  rcases hr : atom ts with e | ⟨base, mid, hmid⟩
  · simp [hr] at h
  · exact ⟨base, mid, hmid, rfl⟩

theorem power_reads_atom {base f : Formula α} {ts mid rest : List Token}
    (h : Reads (atom ts) base mid) (hmid : NotRaised mid) :
    Reads (power ts) f rest ↔ base = f ∧ mid = rest := by
  obtain ⟨_, hr⟩ := h
  rw [power]
  cases mid with
  | nil => simp [hr]
  | cons t more =>
    have ht : t.kind ≠ .power := hmid t (by simp)
    simp [hr, ht]

theorem power_reads_raised {base f : Formula α} {t : Token} {ts more rest : List Token}
    (h : Reads (atom ts) base (t :: more)) (ht : t.kind = .power) :
    Reads (power ts) f rest ↔
      ∃ x, Reads (factor more) x rest ∧ .binary .power base x = f := by
  obtain ⟨_, hr⟩ := h
  rw [power]
  simp only [hr, ht, if_true]
  rcases hx : factor more with e | ⟨x, last, hlast⟩
  · simp
  · simp [and_assoc, and_comm]

/-! ## Atoms -/

theorem atom_reads_number {f : Formula α} {t : Token} {ts rest : List Token}
    (ht : t.kind = .number) :
    Reads (atom (t :: ts)) f rest ↔
      ∃ v, Scalar.read? t.text = some v ∧ .number v = f ∧ ts = rest := by
  rw [atom.eq_def]
  simp only [ht]
  rcases Scalar.read? (α := α) t.text with _ | v <;> simp

/-- A name that is not called is a constant or a name that the caller supplies. -/
theorem atom_reads_name {f : Formula α} {t : Token} {ts rest : List Token} (ht : t.kind = .name)
    (hts : NotOpened ts) : Reads (atom (t :: ts)) f rest ↔ ofName t.text = .ok f ∧ ts = rest := by
  rw [atom.eq_def]
  simp only [ht]
  cases ts with
  | nil => rcases ofName (α := α) t.text with e | g <;> simp
  | cons o more =>
    have ho : o.kind ≠ .opening := hts o (by simp)
    simp only [ho, if_false]
    rcases ofName (α := α) t.text with e | g <;> simp

theorem atom_reads_call {f : Formula α} {t o : Token} {ts rest : List Token} (ht : t.kind = .name)
    (ho : o.kind = .opening) :
    Reads (atom (t :: o :: ts)) f rest ↔
      ∃ g args, Function.ofName? t.text = some g ∧ Reads (arguments ts) args rest ∧
        g.arity.admits args.length = true ∧ .call g args = f := by
  rw [atom.eq_def]
  simp only [ht, ho, if_true]
  rcases Function.ofName? t.text with _ | g
  · simp
  · rcases ha : arguments ts with e | ⟨args, mid, hmid⟩
    · simp
    · by_cases hn : g.arity.admits args.length = true <;> simp [ofCall, hn, and_assoc, and_comm]

theorem atom_reads_group {f : Formula α} {o : Token} {ts rest : List Token}
    (ho : o.kind = .opening) :
    Reads (atom (o :: ts)) f rest ↔
      ∃ c, Reads (operations 0 ts) f (c :: rest) ∧ c.kind = .closing := by
  rw [atom.eq_def]
  simp only [ho]
  rcases hs : operations 0 ts with e | ⟨g, mid, hmid⟩
  · simp
  · cases mid with
    | nil => simp
    | cons c more =>
      by_cases hc : c.kind = .closing
      · simp only [hc, if_true, reads_ok, List.cons.injEq]
        constructor
        · rintro ⟨rfl, rfl⟩
          exact ⟨c, ⟨rfl, rfl, rfl⟩, hc⟩
        · rintro ⟨_, ⟨rfl, rfl, rfl⟩, _⟩
          exact ⟨rfl, rfl⟩
      · simp only [hc, if_false, reads_error, reads_ok, List.cons.injEq, false_iff]
        rintro ⟨_, ⟨_, rfl, _⟩, hc'⟩
        exact hc hc'

/-- Nothing but a number, a name or an opening parenthesis starts an atom. -/
theorem kind_of_atom {f : Formula α} {ts rest : List Token} (h : Reads (atom ts) f rest) :
    ∃ t more, ts = t :: more ∧ (t.kind = .number ∨ t.kind = .name ∨ t.kind = .opening) := by
  cases ts with
  | nil => simp [atom] at h
  | cons t more =>
    rw [atom.eq_def] at h
    refine ⟨t, more, rfl, ?_⟩
    cases hk : t.kind <;> simp [hk] at h ⊢

/-! ## Arguments -/

theorem arguments_reads_none {args : List (Formula α)} {c : Token} {ts rest : List Token}
    (hc : c.kind = .closing) :
    Reads (arguments (c :: ts)) args rest ↔ [] = args ∧ ts = rest := by
  rw [arguments]
  simp [hc]

theorem arguments_reads_some {args : List (Formula α)} {ts rest : List Token}
    (hts : ∀ t ∈ ts.head?, t.kind ≠ .closing) :
    Reads (arguments ts) args rest ↔ Reads (moreArguments ts) args rest := by
  cases ts with
  | nil => rw [arguments]
  | cons t ts =>
    rw [arguments]
    have ht : t.kind ≠ .closing := hts t (by simp)
    simp only [ht, if_false]

theorem moreArguments_reads {args : List (Formula α)} {ts rest : List Token} :
    Reads (moreArguments ts) args rest ↔
      ∃ arg t more, Reads (operations 0 ts) arg (t :: more) ∧
        (t.kind = .closing ∧ [arg] = args ∧ more = rest ∨
          t.kind = .comma ∧ ∃ others, Reads (moreArguments more) others rest ∧
          arg :: others = args) := by
  rw [moreArguments]
  rcases hs : operations 0 ts with e | ⟨arg, mid, hmid⟩
  · simp
  · cases mid with
    | nil => simp
    | cons t more =>
      by_cases hcomma : t.kind = .comma
      · simp only [hcomma, if_true]
        rcases hm : moreArguments more with e | ⟨others, last, hlast⟩ <;>
          simp [hm, hcomma, and_assoc, and_comm]
      · by_cases hclose : t.kind = .closing <;> simp [hcomma, hclose, and_assoc]

end FuzzyInference.Formula
