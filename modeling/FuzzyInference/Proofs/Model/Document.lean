import FuzzyInference.Proofs.Combiner.Document
import FuzzyInference.Proofs.Document.Rule
import FuzzyInference.Proofs.RuleSet.Document
import FuzzyInference.Rule.Basic

/-!
# Models read back, and the order of their names

A model is read back with its settings, its sets and its combiners. Sets,
combiners, memberships and the queries of a rule are the members of objects, so
they are listed in the order of the document. Texts keep the order in which they
were inserted. A document that is handed on as a value has its members sorted,
and the names come back in alphabetical order.

Results:

* `Model.ofDocument?_arrange`: models are read back.
* `Model.relisted_sorted`: which lists of names keep their order.
* `Model.relisted_coast`: lists that do not.
-/

namespace FuzzyInference

variable {α : Type} {before : String → String → Bool}

/-! ## Settings -/

/-- The numbers of the settings satisfy a predicate. -/
def NoDataSettings.All (P : α → Prop) (s : NoDataSettings α) : Prop :=
  P s.value ∧ ∀ k ∈ s.substitute, P k

section

variable [Scalar α]

theorem NoDataSettings.ofDocument?_arrange {s : NoDataSettings α} (h : s.All Finite) :
    ofDocument? (s.toDocument.arrange before) = some s := by
  obtain ⟨value, ignore, substitute⟩ := s
  have hvalue : Finite value := h.1
  rw [ofDocument?, Json.fields?_arrange]
  cases substitute with
  | none =>
    simp [toDocument, Json.fields?, Json.countOf, Json.member?, Json.withDefault, Json.toBool?,
      Json.optional, Json.toScalar?_ofScalar hvalue]
  | some k =>
    simp [toDocument, Json.fields?, Json.countOf, Json.member?, Json.withDefault, Json.toBool?,
      Json.toScalar?_ofScalar hvalue, Json.optional_ofScalar (h.2 k rfl)]

theorem Config.ofDocument?_arrange {c : Config α} (hcount : c.sampleCount < Nat.pow 2 64)
    (hnoData : c.noData.All Finite) (before : String → String → Bool) :
    ofDocument? (c.toDocument.arrange before) = some c := by
  have hfields : c.toDocument.fields? ["sample_count", "default_defuzzifier", "no_data"] =
      some [some (.int c.sampleCount), some c.method.toDocument, some c.noData.toDocument] := rfl
  have hmethod : Method.ofDocument? ((c.method.toDocument : Json α).arrange before) =
      some c.method :=
    Method.ofDocument?_toDocument c.method
  rw [ofDocument?, Json.fields?_arrange, hfields]
  simp [Json.withDefault, Json.toNat?_int hcount, hmethod,
    NoDataSettings.ofDocument?_arrange hnoData]

end

/-! ## Models -/

namespace Model

/-- A model whose documents are read back: its numbers are finite and bounded, and
    its parts hold what they are made to hold. -/
structure IsWritable [Scalar α] (m : Model α) : Prop where
  sampleCount : m.config.sampleCount < Nat.pow 2 64
  noData : m.config.noData.All Finite
  sets : ∀ e ∈ m.sets.entries, e.2.All Finite ∧ e.2.inputs.IsNamed
  combiners : ∀ e ∈ m.combiners.entries, e.2.IsCompiled

variable [Scalar α] {m : Model α}

/-- The model read from a document with its members in an order. -/
def restoredIn (before : String → String → Bool) (m : Model α) : Model α :=
  ⟨m.config, (m.sets.map (RuleSet.restoredIn before)).arrange before,
    (m.combiners.map (Combiner.arrange before)).arrange before⟩

theorem ofDocument?_arrange (h : m.IsWritable) (before : String → String → Bool) :
    ofDocument? (m.toDocument.arrange before) = some (m.restoredIn before) := by
  have hconfig := Config.ofDocument?_arrange h.sampleCount h.noData before
  have hsets : Json.toMap? RuleSet.ofDocument?
      ((Json.ofMap RuleSet.toDocument m.sets).arrange before) =
      some ((m.sets.map (RuleSet.restoredIn before)).arrange before) :=
    Json.toMap?_arrange fun e he => RuleSet.ofDocument?_arrange (h.sets e he).1 before
  have hcombiners : Json.toMap? Combiner.ofDocument?
      ((Json.ofMap Combiner.toDocument m.combiners).arrange before) =
      some ((m.combiners.map (Combiner.arrange before)).arrange before) :=
    Json.toMap?_arrange fun e he => Combiner.ofDocument?_arrange (h.combiners e he) before
  have hfields : m.toDocument.fields? ["config", "sets", "combiners"] =
      some [some m.config.toDocument, some (.ofMap RuleSet.toDocument m.sets),
        some (.ofMap Combiner.toDocument m.combiners)] := rfl
  rw [ofDocument?, Json.fields?_arrange, hfields]
  simp [Json.withDefault, hconfig, hsets, hcombiners, restoredIn]

end Model

/-! ## Lists of names -/

/-- The same names in alphabetical order, which is the order they had only if that
    was alphabetical. -/
structure Alphabetical (names names' : List String) : Prop where
  perm : names'.Perm names
  sorted : names'.Pairwise (· ≤ ·)
  kept_iff : names' = names ↔ names.Pairwise (· ≤ ·)

theorem alphabetical_mergeSort (names : List String) :
    Alphabetical names (names.mergeSort fun m n => decide (m ≤ n)) := by
  have hsorted : (names.mergeSort fun m n => decide (m ≤ n)).Pairwise (· ≤ ·) := by
    refine (List.pairwise_mergeSort ?_ ?_ names).imp of_decide_eq_true
    · intro a b c hab hbc
      exact decide_eq_true (String.le_trans (of_decide_eq_true hab) (of_decide_eq_true hbc))
    · intro a b
      simpa using String.le_total a b
  refine ⟨List.mergeSort_perm _ _, hsorted, ?_, ?_⟩
  · intro h
    rwa [h] at hsorted
  · intro h
    exact List.mergeSort_of_pairwise (h.imp decide_eq_true)

theorem Alphabetical.ne {names names' : List String} (h : Alphabetical names names')
    (hnames : ¬ names.Pairwise (· ≤ ·)) : names' ≠ names :=
  fun heq => hnames (h.kept_iff.1 heq)

/-- Two sets list their names alike, up to a relation between lists of
    memberships. -/
structure RuleSet.Relisted (R : List String → List String → Prop) (s t : RuleSet α) : Prop where
  inputs : List.Forall₂ (fun v w => w.name = v.name ∧ R v.memberships w.memberships)
    s.inputs.toList t.inputs.toList
  result : R s.result.memberships t.result.memberships

/-- Two models list their names alike, up to a relation between lists of outputs and
    of memberships. -/
structure Model.Relisted [Scalar α] (R : List String → List String → Prop)
    (m n : Model α) : Prop where
  outputNames : R m.outputNames n.outputNames
  sets : ∀ name s, m.sets.get? name = some s → ∃ t, n.sets.get? name = some t ∧ s.Relisted R t

section

variable {R : List String → List String → Prop}

theorem RuleSet.relisted_restoredIn [Scalar α] {s : RuleSet α} (h : s.inputs.IsNamed)
    (hR : ∀ names, R names (names.mergeSort before)) : s.Relisted R (s.restoredIn before) where
  inputs := by
    rw [toList_restoredIn h, List.forall₂_map_right_iff, List.forall₂_same]
    intro v _
    refine ⟨rfl, ?_⟩
    show R v.curves.keys (v.curves.arrange before).keys
    rw [OrderedMap.keys_arrange]
    exact hR _
  result := by
    rw [result_restoredIn]
    show R s.result.curves.keys (s.result.curves.arrange before).keys
    rw [OrderedMap.keys_arrange]
    exact hR _

namespace Model

variable [Scalar α] {m : Model α}

theorem outputNames_restoredIn (m : Model α) (before : String → String → Bool) :
    (m.restoredIn before).outputNames = m.outputNames.mergeSort before := by
  rw [outputNames, restoredIn, OrderedMap.isEmpty_arrange, OrderedMap.isEmpty_map,
    OrderedMap.keys_arrange, OrderedMap.keys_arrange, OrderedMap.keys_map,
    OrderedMap.keys_map, outputNames]
  split <;> rfl

/-- Every list of names is put into the order of the document. -/
theorem relisted_arrange (h : m.IsWritable) (hR : ∀ names, R names (names.mergeSort before)) :
    ∃ n, ofDocument? (m.toDocument.arrange before) = some n ∧ m.Relisted R n := by
  refine ⟨_, ofDocument?_arrange h before, ?_, ?_⟩
  · rw [outputNames_restoredIn]
    exact hR _
  · intro name s hs
    have hnamed := (h.sets _ (OrderedMap.get?_eq_some_iff.1 hs)).2
    refine ⟨s.restoredIn before, ?_, RuleSet.relisted_restoredIn hnamed hR⟩
    rw [restoredIn, OrderedMap.get?_arrange, OrderedMap.get?_map, hs, Option.map_some]

/-- Where members stay as they were written, as in a text, every list of names is as
    it was. Where they are sorted, every list is in alphabetical order: outputs,
    memberships and the inputs that a rule asks for. -/
theorem relisted_sorted :
    (∀ m : Model α, m.IsWritable →
      (∃ n, ofDocument? m.toDocument = some n ∧ m.Relisted (fun names names' => names' = names) n) ∧
      ∃ n, ofDocument? m.toDocument.sorted = some n ∧ m.Relisted Alphabetical n) ∧
    ∀ r : Rule α, r.condition.All Finite →
      Rule.ofDocument? r.toDocument = some r ∧
      ∃ t, Rule.ofDocument? r.toDocument.sorted = some t ∧
        Alphabetical r.queries.keys t.queries.keys ∧
        ∀ input, t.queries.get? input = r.queries.get? input := by
  constructor
  · intro m hm
    constructor
    · rw [← m.toDocument.arrange_always]
      refine relisted_arrange hm fun names => ?_
      exact List.mergeSort_of_pairwise (List.pairwise_iff_getElem.2 fun _ _ _ _ _ => rfl)
    · exact relisted_arrange hm alphabetical_mergeSort
  · intro r hr
    constructor
    · have hread := Rule.ofDocument?_arrange hr fun _ _ => true
      rwa [Json.arrange_always, Rule.arrange, OrderedMap.arrange_always] at hread
    · refine ⟨_, Rule.ofDocument?_arrange hr _, ?_, fun input => r.queries.get?_arrange input⟩
      show Alphabetical r.queries.keys (r.queries.arrange _).keys
      rw [OrderedMap.keys_arrange]
      exact alphabetical_mergeSort _

end Model

end

/-! ## A coast -/

namespace Model

/-- An input whose memberships do not stand in alphabetical order. -/
def depth : Variable Float := ⟨"depth", 0, 30, .ofList [("shallow", .ramp), ("deep", .ramp)]⟩

/-- Inputs and a result whose memberships do not stand in alphabetical order. -/
def tide : RuleSet Float :=
  .make (.ofList [depth]) ⟨"hazard", 0, 1, .ofList [("low", .ramp), ("high", .ramp)]⟩

/-- Two sets, of which the one with the later name was inserted first. -/
def coast : Model Float := ⟨.default, .ofList [("water", tide), ("soil", tide)], .empty⟩

/-- A rule whose inputs do not stand in alphabetical order. -/
def tideLine : String := "IF wind IS strong AND depth IS shallow THEN hazard IS high"

/-- The rule that `tideLine` compiles into. -/
def tideRule : Rule Float :=
  ⟨tideLine, .logic .and (.query "wind" "strong") (.query "depth" "shallow"), "hazard", "high",
    .ofList [("wind", "strong"), ("depth", "shallow")]⟩

theorem compile_tideLine : Rule.compile .empty tideLine = .ok tideRule := by cbv

theorem isWritable_coast : coast.IsWritable where
  sampleCount := by decide
  noData := ⟨by decide, fun k hk => nomatch hk⟩
  sets := by
    have htide : tide.All Finite ∧ tide.inputs.IsNamed :=
      ⟨⟨by decide, by decide⟩, VariableStore.isNamed_ofList _⟩
    intro e he
    rcases List.mem_cons.1 he with rfl | he
    · exact htide
    · cases List.mem_singleton.1 he
      exact htide
  combiners := fun e he => nomatch he

theorem all_tideRule : tideRule.condition.All Finite := by
  intro value hvalue
  simp [tideRule, Expr.occurs_iff] at hvalue

theorem relisted_coast :
    coast.IsWritable ∧ tideRule.condition.All Finite ∧
      (∃ n, ofDocument? coast.toDocument = some n ∧
        coast.Relisted (fun names names' => names' = names) n) ∧
      (∃ n, ofDocument? coast.toDocument.sorted = some n ∧ coast.Relisted Alphabetical n) ∧
      ∃ t, Rule.ofDocument? tideRule.toDocument.sorted = some t ∧
        Alphabetical ["wind", "depth"] t.queries.keys := by
  obtain ⟨hmodels, hrules⟩ := relisted_sorted (α := Float)
  obtain ⟨hkept, hsorted⟩ := hmodels coast isWritable_coast
  obtain ⟨-, t, ht, hqueries, -⟩ := hrules tideRule all_tideRule
  exact ⟨isWritable_coast, all_tideRule, hkept, hsorted, t, ht, hqueries⟩

/-- Outputs, memberships and queries come back in another order than they were
    inserted in. -/
theorem reordered_coast :
    (∃ n t, ofDocument? coast.toDocument.sorted = some n ∧ n.outputNames ≠ coast.outputNames ∧
      n.sets.get? "water" = some t ∧ t.result.memberships ≠ tide.result.memberships ∧
      t.inputs.toList.map Variable.memberships ≠ tide.inputs.toList.map Variable.memberships) ∧
    ∃ r t : Rule Float, Rule.compile .empty tideLine = .ok r ∧
      Rule.ofDocument? r.toDocument.sorted = some t ∧
      t.queries.keys ≠ r.queries.keys := by
  constructor
  · obtain ⟨n, hread, hoff, hsets⟩ := relisted_arrange isWritable_coast alphabetical_mergeSort
    obtain ⟨t, ht, hinputs, hresult⟩ := hsets "water" tide rfl
    refine ⟨n, t, hread, hoff.ne (by decide), ht, hresult.ne (by decide), ?_⟩
    have hlist : tide.inputs.toList = [depth] := rfl
    rw [hlist] at hinputs ⊢
    obtain ⟨v, vs, ⟨-, hv⟩, -, hvs⟩ := List.forall₂_cons_left_iff.1 hinputs
    rw [hvs]
    exact fun heq => hv.ne (by decide) (List.cons.inj heq).1
  · refine ⟨tideRule, _, compile_tideLine, Rule.ofDocument?_arrange all_tideRule _, ?_⟩
    show (tideRule.queries.arrange _).keys ≠ _
    rw [OrderedMap.keys_arrange]
    exact (alphabetical_mergeSort _).ne (by decide)

end Model

end FuzzyInference
