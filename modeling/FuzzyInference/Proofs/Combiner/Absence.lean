import FuzzyInference.Proofs.Combiner.Document
import FuzzyInference.Proofs.Combiner.Reading
import FuzzyInference.Proofs.Formula.Legible
import FuzzyInference.Proofs.Formula.Mentions
import FuzzyInference.Proofs.Formula.Outcome
import FuzzyInference.Proofs.Implication.Outcome
import FuzzyInference.Scalar.Binary64

/-!
# Names that nothing is supplied for

A combiner to which no names were given expects those that its expression
mentions. It looks for all of them before anything is computed, so a name that is
missing is reported whatever else would fail; and once all are there, what still
can fail is about numbers.

Results:

* `evaluate_eq_missing`: when an evaluation misses a name, and which one.
* `discovers_names`: the names of a combiner, by its tokens, and what it misses.
-/

namespace FuzzyInference.Combiner

variable {α : Type} [Scalar α] {c : Combiner α} {operands : OrderedMap (Operand α)}
  {extra : OrderedMap (Value α)} {n : String}

/-! ## What is supplied -/

/-- An operand or an extra value goes by a name. -/
def Supplies (operands : OrderedMap (Operand α)) (extra : OrderedMap (Value α))
    (n : String) : Prop :=
  operands.contains n = true ∨ extra.contains n = true

/-- A name is the first one of some names that nothing is supplied for. -/
def FirstMissing (operands : OrderedMap (Operand α)) (extra : OrderedMap (Value α))
    (names : List String) (n : String) : Prop :=
  ∃ before after, names = before ++ n :: after ∧ (∀ m ∈ before, Supplies operands extra m) ∧
    ¬ Supplies operands extra n

omit [Scalar α] in
theorem lacks_iff : (!operands.contains n && !extra.contains n) = true ↔
    ¬ Supplies operands extra n := by
  rw [Supplies, not_or, Bool.and_eq_true, Bool.not_eq_true', Bool.not_eq_true', Bool.not_eq_true,
    Bool.not_eq_true]

omit [Scalar α] in
theorem supplies_of_absent? (h : c.absent? operands extra = none) (hn : n ∈ c.expectedNames) :
    Supplies operands extra n :=
  not_not.1 (lacks_iff.not.1 (List.find?_eq_none.1 h n hn))

omit [Scalar α] in
theorem absent?_eq_some : c.absent? operands extra = some n ↔
    FirstMissing operands extra c.expectedNames n := by
  rw [absent?, List.find?_eq_some_iff_append, lacks_iff]
  constructor
  · rintro ⟨hn, before, after, hnames, hbefore⟩
    refine ⟨before, after, hnames, fun m hm => not_not.1 (lacks_iff.not.1 ?_), hn⟩
    rw [Bool.not_eq_true, ← Bool.not_eq_true']
    exact hbefore m hm
  · rintro ⟨before, after, hnames, hbefore, hn⟩
    refine ⟨hn, before, after, hnames, fun m hm => ?_⟩
    rw [Bool.not_eq_true', ← Bool.not_eq_true]
    exact lacks_iff.not.2 (not_not.2 (hbefore m hm))

/-! ## What can still fail -/

theorem numeric_settle (c : Combiner α) (n : String) (o : Operand α) : Numeric (c.settle n o) := by
  cases o with
  | value v => exact numeric_ok v
  | implication i => exact numeric_bind (i.numeric_defuzzify _ _) fun _ => numeric_ok _

theorem Unsettled.isNumeric {e : Error α} (h : c.Unsettled operands n e) : e.IsNumeric := by
  obtain ⟨o, -, he⟩ := h
  exact c.numeric_settle n o e he

/-- A name that something is supplied for is read, when all operands can be
    settled. -/
theorem exists_reading (hsettled : ∀ m e, ¬ c.Unsettled operands m e)
    (h : Supplies operands extra n) : ∃ v, c.reading operands extra n = some v := by
  unfold reading
  cases ho : operands.get? n with
  | some o =>
    rcases exists_ok_or_error (c.settle n o) with ⟨v, hv⟩ | ⟨e, he⟩
    · exact ⟨v, congrArg Except.toOption hv⟩
    · exact absurd ⟨o, ho, he⟩ (hsettled n e)
  | none =>
    rcases h with hoperand | hextra
    · rw [OrderedMap.contains, ho] at hoperand
      cases hoperand
    · exact Option.isSome_iff_exists.1 hextra

/-- Where every name of the formula is expected, an evaluation misses a name exactly
    if it is the first one that nothing is supplied for. -/
theorem evaluate_eq_missing (hexpects : ∀ m ∈ c.formula.mentions, m ∈ c.expectedNames) :
    c.evaluate operands extra = .error (.missingValue n) ↔ c.absent? operands extra = some n := by
  constructor
  · intro hrun
    -- A combiner checks its names, settles its operands and evaluates its formula, in this order.
    rcases c.evaluate_cases operands extra with
      ⟨m, hm, hends⟩ | ⟨-, m, e, he, hends⟩ | ⟨hpresent, hsettled, hends⟩
    · cases hends.symm.trans hrun
      exact hm
    · cases hends.symm.trans hrun
      exact he.isNumeric.elim
    · rcases Formula.evaluate_eq_error (hends.symm.trans hrun) with ⟨m, hm, hnone, -⟩ | hnumeric
      · obtain ⟨v, hv⟩ := exists_reading hsettled (supplies_of_absent? hpresent (hexpects m hm))
        cases hnone.symm.trans hv
      · exact hnumeric.elim
  · exact evaluate_missing

/-! ## Names that are discovered -/

/-- A combiner to which no names were given expects the names among the tokens of
    its expression that are neither functions nor constants, each where it stands
    first. An evaluation misses a name exactly if it is the first of these that is
    neither an operand nor an extra value, and nothing else can fail before. -/
theorem discovers_names (h : Reached c) (hnames : c.givenNames = none) :
    ∃ ts, Token.lex c.expression = .ok ts ∧ c.expectedNames = (Formula.freeNames ts).eraseDups ∧
      ∀ operands extra n, c.evaluate operands extra = .error (.missingValue n) ↔
        FirstMissing operands extra (Formula.freeNames ts).eraseDups n := by
  have hparse := h.isCompiled.parses
  obtain ⟨ts, hlex⟩ := Formula.lex_of_parse hparse
  have hexpected : c.expectedNames = c.formula.names := by
    rw [expectedNames, hnames]
    rfl
  have htokens := hexpected.trans (Formula.names_of_parse hlex hparse)
  refine ⟨ts, hlex, htokens, fun operands extra n => ?_⟩
  rw [← htokens, ← absent?_eq_some]
  refine evaluate_eq_missing fun m hm => ?_
  rw [hexpected]
  exact Formula.mem_names_iff.2 hm

/-- A name is mentioned twice, and a function stands between its mentions. -/
def ofTide : Combiner Float :=
  ⟨"tide + max(wind, tide)", .binary .add (.name "tide")
    (.call .max [.name "wind", .name "tide"]), none, .empty, .bisector, 2⟩

theorem reached_ofTide : Reached ofTide := by
  have hmake : make ofTide.expression =
      .ok ⟨ofTide.expression, ofTide.formula, none, .empty, .centroid, defaultSampleCount⟩ :=
    make_eq_ok.2 ⟨ofTide.formula, by cbv, rfl⟩
  exact .withSampleCount (.withDefaultMethod (.make hmake) .bisector) (by decide)

set_option maxRecDepth 2000 in
/-- The wind is missing, although the tide cannot be settled either. -/
theorem discovers_wind :
    Reached ofTide ∧ ofTide.givenNames = none ∧ ofTide.expectedNames = ["tide", "wind"] ∧
      ofTide.Unsettled (.ofList [("tide", .implication rock)]) "tide"
        (.computation .bisectorNotFound) ∧
      ofTide.evaluate (.ofList [("tide", .implication rock)]) .empty =
        .error (.missingValue "wind") := by
  obtain ⟨ts, hlex, hnames, hmissing⟩ := discovers_names reached_ofTide rfl
  have hexpected : (Formula.freeNames ts).eraseDups = ["tide", "wind"] := by
    have htokens : (Token.lex ofTide.expression).map (fun ts => (Formula.freeNames ts).eraseDups) =
        .ok ["tide", "wind"] := by cbv
    rw [hlex] at htokens
    exact Except.ok.inj htokens
  refine ⟨reached_ofTide, rfl, hnames.trans hexpected, ⟨.implication rock, rfl, rfl⟩,
    (hmissing _ _ _).2 ?_⟩
  rw [hexpected]
  refine ⟨["tide"], [], rfl, ?_, ?_⟩
  · rintro m hm
    rw [List.mem_singleton.1 hm]
    exact .inl rfl
  · rintro (h | h) <;> cases h

end FuzzyInference.Combiner
