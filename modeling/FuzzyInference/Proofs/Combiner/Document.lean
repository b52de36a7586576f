import FuzzyInference.Document.Model
import FuzzyInference.Proofs.Document.Legible
import FuzzyInference.Proofs.Error.Result

/-!
# Combiners read back

A combiner is read from its expression, which is compiled again, and from the
settings that were given to it. So the formula and the names that it mentions
are the same, and names that were given are told apart from them.

Results:

* `Reached.isCompiled`: the formula of a combiner is the one of its expression.
* `ofDocument?_arrange` and `read?_write`: combiners are read back.
* `ofDocument?_of_unparsable`: without a formula nothing is read.
* `restores_sorted`: what a combiner has in common with the one that is read.
-/

namespace FuzzyInference.Combiner

variable {α : Type} [Scalar α] {c d : Combiner α} {before : String → String → Bool}

/-! ## Combiners that are reached -/

/-- The combiners that are made of an expression and get settings in any order. -/
inductive Reached : Combiner α → Prop
  | make {expression : String} {c : Combiner α} (h : make expression = .ok c) : Reached c
  | configured {expression : String} {config : Config α} {c : Combiner α}
    (h : configured expression config = .ok c)
    (hcount : config.sampleCount < Nat.pow 2 64) : Reached c
  | withExpectedNames {c : Combiner α} (h : Reached c) (names : List String) :
    Reached (c.withExpectedNames names)
  | setMethod {c : Combiner α} (h : Reached c) (name : String) (m : Method) :
      Reached (c.setMethod name m)
  | clearMethod {c : Combiner α} (h : Reached c) (name : String) : Reached (c.clearMethod name)
  | withDefaultMethod {c : Combiner α} (h : Reached c) (m : Method) :
      Reached { c with defaultMethod := m }
  | withSampleCount {c : Combiner α} (h : Reached c) {n : Nat} (hn : n < Nat.pow 2 64) :
    Reached { c with sampleCount := n }

/-- The formula is the one that the expression spells, and the number of samples has
    64 bits. -/
structure IsCompiled (c : Combiner α) : Prop where
  parses : Formula.parse c.expression = .ok c.formula
  bounded : c.sampleCount < Nat.pow 2 64

theorem make_eq_ok {expression : String} :
    make expression = .ok c ↔ ∃ f, Formula.parse expression = .ok f ∧
      c = ⟨expression, f, none, .empty, .centroid, defaultSampleCount⟩ := by
  rw [make]
  cases hparse : Formula.parse (α := α) expression with
  | error e => simp
  | ok f => simp [eq_comm]

theorem isCompiled_of_make {expression : String} (h : make expression = .ok c) : c.IsCompiled := by
  obtain ⟨f, hf, rfl⟩ := make_eq_ok.1 h
  have hcount : defaultSampleCount < Nat.pow 2 64 := by decide
  exact ⟨hf, hcount⟩

/-- No setting touches the expression or its formula. -/
theorem Reached.isCompiled (h : Reached c) : c.IsCompiled := by
  induction h with
  | make h => exact isCompiled_of_make h
  | @configured expression config c h hcount =>
    rw [Combiner.configured, bind_eq_ok] at h
    obtain ⟨c, hc, h⟩ := h
    cases h
    exact ⟨(isCompiled_of_make hc).parses, hcount⟩
  | withExpectedNames _ _ ih => exact ⟨ih.parses, ih.bounded⟩
  | setMethod _ _ _ ih => exact ⟨ih.parses, ih.bounded⟩
  | clearMethod _ _ ih => exact ⟨ih.parses, ih.bounded⟩
  | withDefaultMethod _ _ ih => exact ⟨ih.parses, ih.bounded⟩
  | withSampleCount _ hn ih => exact ⟨ih.parses, hn⟩

/-! ## Evaluation -/

/-- Only the method of each name counts, not the order in which the methods
    stand. -/
theorem evaluate_congr (hformula : d.formula = c.formula)
    (hnames : d.expectedNames = c.expectedNames)
    (hmethod : ∀ name, d.methodFor name = c.methodFor name) (hcount : d.sampleCount = c.sampleCount)
    (operands : OrderedMap (Operand α)) (extra : OrderedMap (Value α)) :
    d.evaluate operands extra = c.evaluate operands extra := by
  have hsettle : ∀ name o, d.settle name o = c.settle name o := by
    intro name o
    cases o with
    | value v => rfl
    | implication i => rw [settle, settle, hmethod, hcount]
  have hall : ∀ entries, d.settleAll entries = c.settleAll entries := by
    intro entries
    induction entries with
    | nil => rfl
    | cons e rest ih => rw [settleAll, settleAll, hsettle, ih]
  rw [evaluate, evaluate, hnames, hall, hformula]

/-! ## Documents -/

/-- A combiner with its table of methods in an order of the names. -/
def arrange (before : String → String → Bool) (c : Combiner α) : Combiner α :=
  { c with methods := c.methods.arrange before }

omit [Scalar α] in
theorem methodFor_arrange (c : Combiner α) (name : String) :
    (c.arrange before).methodFor name = c.methodFor name := by
  rw [methodFor, arrange, OrderedMap.get?_arrange, methodFor]

theorem evaluate_arrange (c : Combiner α) (operands : OrderedMap (Operand α))
    (extra : OrderedMap (Value α)) :
    (c.arrange before).evaluate operands extra = c.evaluate operands extra := by
  refine evaluate_congr (c := c) (d := c.arrange before) rfl rfl ?_ rfl operands extra
  exact c.methodFor_arrange

/-- The names of the fields of a combiner. -/
abbrev fieldNames : List String :=
  ["expression", "expected", "methods", "default_method", "sample_count"]

omit [Scalar α] in
/-- Names that were not given and methods that were not set are left out. -/
theorem fields?_toDocument (c : Combiner α) :
    c.toDocument.fields? fieldNames = some [some (.string c.expression),
      c.givenNames.map fun names => .array (names.map .string),
      if c.methods.isEmpty then none else some (.ofMap Method.toDocument c.methods),
      some c.defaultMethod.toDocument, some (.int c.sampleCount)] := by
  rw [toDocument]
  cases c.givenNames <;> cases c.methods.isEmpty <;> rfl

omit [Scalar α] in
theorem givenNames_arrange (c : Combiner α) :
    Json.optional (Json.toList? Json.toString?)
      ((c.givenNames.map fun names => (.array (names.map .string) : Json α)).map
        (Json.arrange before)) =
        some c.givenNames := by
  cases c.givenNames with
  | none => rfl
  | some names =>
    have hlist : Json.toList? Json.toString?
        ((.array (names.map .string) : Json α).arrange before) =
        some names :=
      Json.toList?_arrange_self fun _ _ => rfl
    rw [Json.arrange_array] at hlist
    rw [Option.map_some, Option.map_some, Json.arrange_array]
    exact congrArg (Option.map some) hlist

omit [Scalar α] in
theorem methods_arrange (c : Combiner α) :
    Json.withDefault .empty (Json.toMap? Method.ofDocument?)
      ((if c.methods.isEmpty then none else some (.ofMap Method.toDocument c.methods : Json α)).map
        (Json.arrange before)) = some (c.methods.arrange before) := by
  have hread : Json.toMap? Method.ofDocument?
      ((.ofMap Method.toDocument c.methods : Json α).arrange before) =
      some (c.methods.arrange before) :=
    Json.toMap?_arrange_self fun e _ => Method.ofDocument?_toDocument e.2
  split
  · rename_i hempty
    rw [OrderedMap.arrange_of_isEmpty hempty]
    rfl
  · exact hread

theorem ofDocument?_arrange (h : c.IsCompiled) (before : String → String → Bool) :
    ofDocument? (c.toDocument.arrange before) = some (c.arrange before) := by
  have hmake : make c.expression =
      .ok ⟨c.expression, c.formula, none, .empty, .centroid, defaultSampleCount⟩ :=
    make_eq_ok.2 ⟨c.formula, h.parses, rfl⟩
  have hmethod : Json.withDefault .centroid Method.ofDocument?
      (some ((c.defaultMethod.toDocument : Json α).arrange before)) = some c.defaultMethod :=
    Method.ofDocument?_toDocument c.defaultMethod
  have hcount : Json.withDefault defaultSampleCount (Json.toNat? (Nat.pow 2 64))
      (some ((.int c.sampleCount : Json α).arrange before)) = some c.sampleCount :=
    Json.toNat?_int (α := α) h.bounded
  rw [ofDocument?, Json.fields?_arrange, fields?_toDocument]
  simp only [Option.map_some, List.map_cons, List.map_nil]
  rw [givenNames_arrange, methods_arrange, hmethod, hcount]
  simp [Json.required, Json.toString?, hmake, arrange]

/-- A document whose expression has no formula is not read, whatever else it
    holds. -/
theorem ofDocument?_of_unparsable {j : Json α} {expression : String} {rest : List (Option (Json α))}
    (hfields : j.fields? fieldNames = some (some (.string expression) :: rest))
    (hparse : ∀ f : Formula α, Formula.parse expression ≠ .ok f) : ofDocument? j = none := by
  obtain ⟨e, hmake⟩ : ∃ e, make (α := α) expression = .error e := by
    rw [make]
    cases h : Formula.parse (α := α) expression with
    | ok f => exact absurd h (hparse f)
    | error fault => exact ⟨_, rfl⟩
  rw [ofDocument?, hfields]
  split
  · rename_i h
    cases h
    simp [Json.required, Json.toString?, hmake]
  · rfl

/-- What a combiner has in common with the one that is read from its document. -/
structure Restores (c d : Combiner α) : Prop where
  expression : d.expression = c.expression
  formula : d.formula = c.formula
  givenNames : d.givenNames = c.givenNames
  expectedNames : d.expectedNames = c.expectedNames
  /-- The same methods, in an order of the document. -/
  methods : d.methods.entries.Perm c.methods.entries
  defaultMethod : d.defaultMethod = c.defaultMethod
  sampleCount : d.sampleCount = c.sampleCount
  evaluate : ∀ operands extra, d.evaluate operands extra = c.evaluate operands extra

/-- A combiner is read back from its document as it was made and configured, and
    without an expression that has a formula nothing is read. -/
theorem restores_sorted :
    (∀ c : Combiner α, Reached c → ∃ d, ofDocument? c.toDocument.sorted = some d ∧ c.Restores d) ∧
    ∀ (j : Json α) (expression : String) (rest : List (Option (Json α))),
      j.fields? fieldNames = some (some (.string expression) :: rest) →
      (∀ f : Formula α, Formula.parse expression ≠ .ok f) → ofDocument? j = none := by
  constructor
  · intro c hc
    refine ⟨_, ofDocument?_arrange hc.isCompiled _, ?_⟩
    exact ⟨rfl, rfl, rfl, rfl, c.methods.entries_arrange_perm, rfl, rfl, c.evaluate_arrange⟩
  · exact fun j expression rest hfields hparse => ofDocument?_of_unparsable hfields hparse

/-! ## A combiner and its text -/

/-- The larger of two hazards, less what the slope takes off. -/
def ofStorm : Combiner Float :=
  ⟨"max(rain, wind) - slope",
    .binary .subtract (.call .max [.name "rain", .name "wind"]) (.name "slope"), none, .empty,
    .centroid, defaultSampleCount⟩

/-- Names in another order than in the formula, and methods in another order than
    that of their names. -/
def ofHazards : Combiner Float :=
  ((ofStorm.setMethod "wind" .bisector).setMethod "rain" .centroid).withExpectedNames
    ["slope", "wind"]

theorem reached_ofHazards : Reached ofHazards := by
  have hmake : make ofStorm.expression = .ok ofStorm :=
    make_eq_ok.2 ⟨ofStorm.formula, by cbv, rfl⟩
  exact .withExpectedNames (.setMethod (.setMethod (.make hmake) _ _) _ _) _

theorem restores_ofHazards :
    Reached ofHazards ∧
    (∃ d, ofDocument? ofHazards.toDocument.sorted = some d ∧ ofHazards.Restores d) ∧
      ofDocument? (.array [.string "rain +"] : Json Float) = none := by
  have hparse : ∀ f : Formula Float, Formula.parse "rain +" ≠ .ok f := by
    have hfails : (Formula.parse (α := Float) "rain +").isOk = false := by cbv
    intro f hf
    rw [hf] at hfails
    cases hfails
  obtain ⟨hread, hnone⟩ := restores_sorted (α := Float)
  exact ⟨reached_ofHazards, hread ofHazards reached_ofHazards, hnone _ "rain +" _ rfl hparse⟩

theorem legible_toDocument {c : Combiner Float} (h : c.IsCompiled) :
    Json.Legible 2 c.toDocument := by
  have hnames (names : List String) : Json.Legible 1 (.array (names.map .string)) :=
    Json.legible_map fun s _ => .string s
  have hmethods : Json.Legible 1 (.ofMap Method.toDocument c.methods) :=
    Json.legible_ofMap fun e _ => .string e.2.name
  have hcount : Json.Legible 1 (.int c.sampleCount) := .int h.bounded
  refine .object ?_
  simp only [List.forall_mem_append]
  refine ⟨⟨⟨?_, ?_⟩, ?_⟩, ?_⟩
  · simp [Json.Legible.string]
  · cases c.givenNames <;> simp [hnames]
  · split <;> simp [hmethods]
  · simp [Method.toDocument, Json.Legible.string, hcount]

/-- A text also keeps the order of the methods. -/
theorem read?_write {c : Combiner Float} (h : Reached c) :
    (Json.read? (Json.write c.toDocument)).bind ofDocument? = some c := by
  have hread := ofDocument?_arrange h.isCompiled fun _ _ => true
  rw [Json.arrange_always, arrange, OrderedMap.arrange_always] at hread
  rwa [Json.read?_write (legible_toDocument h.isCompiled) (by decide)]

end FuzzyInference.Combiner
