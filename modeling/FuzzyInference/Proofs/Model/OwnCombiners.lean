import FuzzyInference.Proofs.Combiner.Reading
import FuzzyInference.Proofs.Formula.Parsing
import FuzzyInference.Proofs.Model.Accounting

/-!
# A combiner for each set

Without combiners every set is an output of its own, and its conclusion is
defuzzified where it stands. With a combiner that just names the set the
conclusion takes another way: it becomes an operand, all operands are
defuzzified, and a formula that was read from the name looks it up again.

Both ways come to the same outputs. They differ in what is said about a set that
failed: its conclusion is no operand, so that the combiner misses the name and
does not know of the failure.

Results:

* `configured_ofName` and `evaluate_ofName`: a combiner that just names an operand.
* `get?_operands`: the operands that conclusions make.
* `verdicts_combined`: what outputs come to when each set has a combiner.
* `evaluate_combineSets`: the outputs of a model with such combiners.
-/

namespace FuzzyInference

variable {α : Type}

/-! ## Combiners of one name -/

namespace Combiner

/-- The combiner that just names an operand. -/
def ofName (config : Config α) (name : String) : Combiner α :=
  ⟨name, .name name, none, .empty, config.method, config.sampleCount⟩

variable [Scalar α] {config : Config α} {name : String} {operands : OrderedMap (Operand α)}
  {extra : OrderedMap (Value α)}

theorem configured_ofName (h : Token.isName name = true) (hname : isBuiltinName name = false) :
    configured name config = .ok (ofName config name) := by
  rw [configured, make, Formula.parse_name h hname]
  rfl

omit [Scalar α] in
theorem absent?_ofName : (ofName config name).absent? operands extra =
    if operands.contains name || extra.contains name then none else some name := by
  have hnames : (ofName config name).expectedNames = [name] := rfl
  rw [absent?, hnames, List.find?_singleton]
  cases operands.contains name <;> cases extra.contains name <;> rfl

/-- An operand comes out as it was settled. -/
theorem evaluate_ofName {o : Operand α} (ho : operands.get? name = some o)
    (hsettled : ∀ n e, ¬ (ofName config name).Unsettled operands n e) :
    (ofName config name).evaluate operands extra = (ofName config name).settle name o := by
  have hcontains : operands.contains name = true := by rw [OrderedMap.contains, ho]; rfl
  rcases (ofName config name).evaluate_cases operands extra with
    ⟨n, hn, -⟩ | ⟨-, n, e, he, -⟩ | ⟨-, -, hrun⟩
  · rw [absent?_ofName, hcontains, Bool.true_or, if_pos rfl] at hn
    cases hn
  · exact absurd he (hsettled n e)
  · rcases exists_ok_or_error ((ofName config name).settle name o) with ⟨v, hv⟩ | ⟨e, he⟩
    · have hread : (ofName config name).reading operands extra name = some v := by
        rw [reading, ho]
        show ((ofName config name).settle name o).toOption = some v
        rw [hv]
        rfl
      rw [hrun, hv]
      show (Formula.name name).evaluate _ = .ok v
      rw [Formula.evaluate, hread]
    · exact absurd ⟨o, ho, he⟩ (hsettled name e)

theorem evaluate_ofName_absent (ho : operands.get? name = none) (hx : extra.get? name = none) :
    (ofName config name).evaluate operands extra = .error (.missingValue name) := by
  have habsent : (ofName config name).absent? operands extra = some name := by
    rw [absent?_ofName, OrderedMap.contains, OrderedMap.contains, ho, hx]
    rfl
  exact evaluate_missing habsent

end Combiner

namespace Model

variable [Scalar α] {m : Model α} {record : Record α} {name : String}

/-! ## Operands and flags -/

section

variable {results : List (String × Result α (Implication α))}

omit [Scalar α] in
/-- The operands are the conclusions of the sets that did not fail. -/
theorem get?_operands (hnodup : (results.map (·.1)).Nodup) {o : Operand α} :
    (operands results).get? name = some o ↔ ∃ i, (name, .ok i) ∈ results ∧ .implication i = o := by
  have hlist : operands results =
      .ofList (results.filterMap fun p => p.2.toOption.map fun i => (p.1, .implication i)) := by
    refine congrArg OrderedMap.ofList (List.filterMap_congr ?_)
    rintro ⟨n, e | i⟩ - <;> rfl
  have hentries : (operands results).entries =
      results.filterMap fun p => p.2.toOption.map fun i => (p.1, .implication i) := by
    rw [hlist]
    refine OrderedMap.entries_ofList (hnodup.sublist ?_)
    clear hnodup hlist
    induction results with
    | nil => exact List.Sublist.slnil
    | cons p results ih =>
      obtain ⟨n, _ | i⟩ := p
      · exact ih.cons n
      · exact ih.cons_cons n
  rw [OrderedMap.get?_eq_some_iff, hentries, List.mem_filterMap]
  constructor
  · rintro ⟨⟨n, e | i⟩, hmem, h⟩
    · cases h
    · cases h
      exact ⟨i, hmem, rfl⟩
  · rintro ⟨i, hmem, rfl⟩
    exact ⟨(name, .ok i), hmem, rfl⟩

omit [Scalar α] in
theorem get?_operands_of_error (hnodup : (results.map (·.1)).Nodup) {e : Error α}
    (h : (name, .error e) ∈ results) : (operands results).get? name = none := by
  rw [← Option.not_isSome_iff_eq_none, Option.isSome_iff_exists]
  rintro ⟨o, ho⟩
  obtain ⟨i, hi, -⟩ := (get?_operands hnodup).1 ho
  cases List.inj_on_of_nodup_map hnodup h hi rfl

end

theorem get?_flags (h : flagMark.isPrefixOf name = false) : (flags record).get? name = none := by
  rw [OrderedMap.get?_eq_none_iff, flags, OrderedMap.mem_keys_ofList, List.map_map]
  intro hmem
  obtain ⟨p, -, rfl⟩ := List.mem_map.1 hmem
  have hmark : flagMark.isPrefixOf (flagMark ++ p.1) = true := by
    rw [String.isPrefixOf, String.startsWith_string_iff, String.toList_append]
    exact List.prefix_append _ _
  cases h.symm.trans hmark

/-! ## Models with a combiner for each set -/

/-- A name that a combiner can read and that does not stand for anything else. -/
structure IsOwnName (name : String) : Prop where
  isName : Token.isName name = true
  notBuiltin : isBuiltinName name = false
  notFlag : flagMark.isPrefixOf name = false

/-- Adds, for each set and in order, the combiner that is configured with its
    name. -/
def combineSets (m : Model α) : Result α (Model α) := do
  let cs ← m.sets.keys.mapM fun name => do return (name, ← Combiner.configured name m.config)
  return { m with combiners := cs.foldl (fun combiners c => combiners.insert c.1 c.2) m.combiners }

theorem combineSets_eq_ok (hnone : m.combiners.isEmpty = true)
    (hnames : ∀ s ∈ m.sets.keys, IsOwnName s) :
    ∃ combiners, m.combineSets = .ok { m with combiners } ∧
      combiners.entries = m.sets.keys.map fun s => (s, .ofName m.config s) := by
  have hconfigured : (m.sets.keys.mapM fun name => do
      return (name, ← Combiner.configured name m.config) : Result α (List (String × Combiner α))) =
      .ok (m.sets.keys.map fun s => (s, .ofName m.config s)) := by
    rw [mapM_eq_ok, List.forall₂_map_right_iff, List.forall₂_same]
    intro s hs
    rw [Combiner.configured_ofName (hnames s hs).isName (hnames s hs).notBuiltin]
    rfl
  have hempty : m.combiners.entries = [] := List.isEmpty_iff.1 hnone
  refine ⟨_, by rw [combineSets, hconfigured]; rfl, ?_⟩
  -- the entries are in place if the new names are distinct
  rw [OrderedMap.entries_foldl_insert, hempty, List.nil_append]
  rw [hempty, List.nil_append, List.map_map]
  have hkeys : m.sets.keys.map (Prod.fst ∘ fun s => (s, Combiner.ofName m.config s)) =
      m.sets.keys :=
    List.map_id _
  rw [hkeys]
  exact m.sets.nodup

/-- Each set fails, or its conclusion can be defuzzified with the settings of the
    model. -/
def Defuzzifies (m : Model α) (record : Record α) : Prop :=
  ∀ name i, (name, .ok i) ∈ m.conclusions record →
    ∃ v, i.defuzzify m.config.method m.config.sampleCount = .ok v

theorem nodup_conclusions (m : Model α) (record : Record α) :
    ((m.conclusions record).map (·.1)).Nodup := by
  rw [conclusions, List.map_map]
  exact m.sets.nodup

theorem direct_eq_ok (h : m.Defuzzifies record) {i : Implication α}
    (hi : (name, .ok i) ∈ m.conclusions record) : ∃ v, m.direct (.ok i) = .ok v := by
  obtain ⟨v, hv⟩ := h name i hi
  exact ⟨v.getD (.number 0), bind_eq_ok.2 ⟨i, rfl, bind_eq_ok.2 ⟨v, hv, rfl⟩⟩⟩

/-- A combiner that names a set settles its conclusion as the model itself does. -/
theorem settle_ofName (m : Model α) (s n : String) (i : Implication α) :
    (Combiner.ofName m.config s).settle n (.implication i) = m.direct (.ok i) := rfl

theorem settled_conclusions (h : m.Defuzzifies record) (s n : String) (e : Error α) :
    ¬ (Combiner.ofName m.config s).Unsettled (operands (m.conclusions record)) n e := by
  rintro ⟨o, ho, he⟩
  obtain ⟨i, hi, rfl⟩ := (get?_operands (m.nodup_conclusions record)).1 ho
  obtain ⟨v, hv⟩ := direct_eq_ok h hi
  rw [settle_ofName, hv] at he
  cases he

/-- A set that has failed is missing; any other one comes to what it would come to
    by itself. -/
def combined (m : Model α) (name : String) (result : Result α (Implication α)) :
    Result α (Value α) :=
  match result with
  | .ok i => m.direct (.ok i)
  | .error _ => .error (.missingValue name)

theorem evaluate_own (h : m.Defuzzifies record) (hflag : flagMark.isPrefixOf name = false)
    {result : Result α (Implication α)} (hmem : (name, result) ∈ m.conclusions record) :
    (Combiner.ofName m.config name).evaluate (operands (m.conclusions record)) (flags record) =
      m.combined name result := by
  have hnodup := m.nodup_conclusions record
  cases result with
  | ok i =>
    have ho : (operands (m.conclusions record)).get? name = some (.implication i) :=
      (get?_operands hnodup).2 ⟨i, hmem, rfl⟩
    rw [Combiner.evaluate_ofName ho (settled_conclusions h name), settle_ofName]
    rfl
  | error e =>
    exact Combiner.evaluate_ofName_absent (get?_operands_of_error hnodup hmem) (get?_flags hflag)

end Model

/-! ## Outputs -/

/-- Why an output is skipped, when a failure is put down to a name that is
    missing. -/
def SkipReason.absent (name : String) : SkipReason α → SkipReason α
  | .failed _ => .failed (.missingValue name)
  | reason => reason

/-- What an output comes to, when a failure is put down to its name. -/
def Verdict.absent (name : String) : Verdict α → Verdict α
  | .number v => .number v
  | .skipped reason => .skipped (reason.absent name)

theorem Verdict.held_absent (name : String) (noData : α) (verdict : Verdict α) :
    (verdict.absent name).held noData = verdict.held noData := by
  cases verdict <;> rfl

theorem skips_absent (vs : List (String × Verdict α)) :
    skips (vs.map fun p => (p.1, p.2.absent p.1)) =
      (skips vs).map fun p => (p.1, p.2.absent p.1) := by
  induction vs with
  | nil => rfl
  | cons p vs ih =>
    obtain ⟨name, v | reason⟩ := p
    · exact ih
    · exact congrArg ((name, reason.absent name) :: ·) ih

namespace Model

variable [Scalar α] {m : Model α} {record : Record α}

theorem ofValue_combined (h : m.Defuzzifies record) {p : String × Result α (Implication α)}
    (hp : p ∈ m.conclusions record) :
    Verdict.ofValue (m.combined p.1 p.2) = (Verdict.ofValue (m.direct p.2)).absent p.1 := by
  obtain ⟨name, e | i⟩ := p
  · rfl
  · obtain ⟨v, hv⟩ := direct_eq_ok h hp
    show Verdict.ofValue (m.direct (.ok i)) = (Verdict.ofValue (m.direct (.ok i))).absent name
    rw [hv]
    cases v <;> rfl

theorem outputValues_direct (hnone : m.combiners.isEmpty = true)
    (results : List (String × Result α (Implication α))) :
    m.outputValues record results = results.map fun p => (p.1, m.direct p.2) := if_pos hnone

omit [Scalar α] in
theorem outputNames_combined {combiners : OrderedMap (Combiner α)}
    (hnone : m.combiners.isEmpty = true) (hkeys : combiners.keys = m.sets.keys) :
    ({ m with combiners } : Model α).outputNames = m.outputNames := by
  unfold outputNames
  rw [if_pos hnone]
  split
  · rfl
  · exact hkeys

section

variable {combiners : OrderedMap (Combiner α)}
  (hcombiners : combiners.entries = m.sets.keys.map fun s => (s, .ofName m.config s))

include hcombiners

omit [Scalar α] in
theorem keys_combined : combiners.keys = m.sets.keys := by
  rw [OrderedMap.keys, hcombiners, List.map_map]
  exact List.map_id _

theorem outputValues_combined (hnames : ∀ s ∈ m.sets.keys, IsOwnName s) (h : m.Defuzzifies record) :
    ({ m with combiners } : Model α).outputValues record (m.conclusions record) =
      (m.conclusions record).map fun p => (p.1, m.combined p.1 p.2) := by
  have hkeys : m.sets.keys = (m.conclusions record).map (·.1) := by
    rw [conclusions, List.map_map]
    rfl
  unfold outputValues
  split
  · -- without sets there are no combiners either, and no outputs
    rename_i hnone
    have hempty : (m.conclusions record).map (·.1) = [] := by
      rw [← hkeys, ← keys_combined hcombiners, OrderedMap.keys,
        List.isEmpty_iff.1 hnone, List.map_nil]
    rw [List.map_eq_nil_iff.1 hempty]
    rfl
  · show combiners.entries.map _ = _
    rw [hcombiners, hkeys, List.map_map, List.map_map]
    refine List.map_congr_left fun p hp => ?_
    have hname : p.1 ∈ m.sets.keys := hkeys ▸ List.mem_map_of_mem hp
    exact congrArg (Prod.mk p.1) (evaluate_own h (hnames p.1 hname).notFlag hp)

/-- With a combiner for each set the outputs come to the same, up to the causes of
    failures. -/
theorem verdicts_combined (hnone : m.combiners.isEmpty = true)
    (hnames : ∀ s ∈ m.sets.keys, IsOwnName s) (h : m.Defuzzifies record) :
    ({ m with combiners } : Model α).verdicts record =
      (m.verdicts record).map fun p => (p.1, p.2.absent p.1) := by
  unfold verdicts
  split
  · rw [outputNames_combined hnone (keys_combined hcombiners), List.map_map]
    rfl
  · show (({ m with combiners } : Model α).outputValues record (m.conclusions record)).map _ = _
    rw [outputValues_combined hcombiners hnames h, outputValues_direct hnone,
      List.map_map, List.map_map, List.map_map]
    exact List.map_congr_left fun p hp => congrArg (Prod.mk p.1) (ofValue_combined h hp)

end

/-- The failures among the outputs of sets are the failures of the sets. -/
theorem failed_iff (hnone : m.combiners.isEmpty = true) (h : m.Defuzzifies record) {name : String}
    {e : Error α} : (name, .failed e) ∈ (m.evaluate record).outputs.skipped.entries ↔
      record.allMissing = false ∧ (name, .error e) ∈ m.conclusions record := by
  rw [mem_skipped_iff]
  unfold verdicts
  split
  · rename_i hmissing
    rw [hmissing]
    simp
  · rename_i hpresent
    rw [Bool.not_eq_true] at hpresent
    rw [outputValues_direct hnone, List.map_map, List.mem_map, and_iff_right hpresent]
    constructor
    · rintro ⟨⟨n, err | i⟩, hmem, heq⟩
      · cases heq
        exact hmem
      · obtain ⟨v, hv⟩ := direct_eq_ok h hmem
        have heq : (n, Verdict.ofValue (m.direct (.ok i))) = (name, .skipped (.failed e)) := heq
        rw [hv] at heq
        cases v <;> cases heq
    · intro hmem
      exact ⟨(name, .error e), hmem, rfl⟩

/-- A model without combiners and the model with a configured combiner for each set
    evaluate every record alike. Their outputs have the same names in the same order
    and the same values, and the same ones are skipped. Of a set that has failed the
    first model reports the failure, and the second one a missing name; any other
    reason is the same. -/
theorem evaluate_combineSets (hnone : m.combiners.isEmpty = true)
    (hnames : ∀ s ∈ m.sets.keys, IsOwnName s) :
    ∃ m', m.combineSets = .ok m' ∧ m'.outputNames = m.outputNames ∧
      ∀ record, m.Defuzzifies record →
        (m'.evaluate record).outputs.values.entries = (m.evaluate record).outputs.values.entries ∧
        (m'.evaluate record).outputs.skipped.entries =
          ((m.evaluate record).outputs.skipped.entries.map fun p => (p.1, p.2.absent p.1)) ∧
        ∀ name e, (name, .failed e) ∈ (m.evaluate record).outputs.skipped.entries ↔
          record.allMissing = false ∧ (name, .error e) ∈ m.conclusions record := by
  obtain ⟨combiners, hm', hcombiners⟩ := combineSets_eq_ok hnone hnames
  refine ⟨_, hm', outputNames_combined hnone (keys_combined hcombiners), fun record h => ?_⟩
  have hsettled := m.settled_evaluate record
  have hsettled' := ({ m with combiners } : Model α).settled_evaluate record
  have hverdicts := verdicts_combined hcombiners hnone hnames h
  refine ⟨?_, ?_, fun name e => failed_iff hnone h⟩
  · rw [hsettled'.values, hsettled.values, hverdicts, List.map_map]
    exact List.map_congr_left fun p _ => congrArg (Prod.mk p.1) (p.2.held_absent p.1 _)
  · rw [hsettled'.skipped, hsettled.skipped, hverdicts, skips_absent]

/-- A set that passes an input on to its result. -/
def gauge (input : String) : RuleSet Float :=
  { RuleSet.make (.ofList [⟨input, 0, 1, .ofList [("high", .ramp)]⟩])
      ⟨"risk", 0, 1, .ofList [("high", .ramp)]⟩ with
    rules := [⟨"", .query input "high", "risk", "high", .empty⟩] }

/-- Three sets about different inputs. -/
def hazards : Model Float :=
  ⟨⟨2, .largestOfMaximum, .default⟩,
    .ofList [("flood", gauge "depth"), ("frost", gauge "cold"), ("fire", gauge "heat")], .empty⟩

/-- One input has a value, one is missing data, and one is not there. -/
def coldRecord : Record Float := .ofList [("depth", .number 1), ("cold", .sentinel .propagating)]

set_option maxRecDepth 2000 in
theorem combineSets_hazards :
    (hazards.evaluate coldRecord).outputs.skipped.entries =
      [("frost", .noData), ("fire", .failed (.missingValue "heat"))] ∧
    ∃ m', hazards.combineSets = .ok m' ∧ m'.outputNames = ["flood", "frost", "fire"] ∧
      (m'.evaluate coldRecord).outputs.values.entries =
        (hazards.evaluate coldRecord).outputs.values.entries ∧
      (m'.evaluate coldRecord).outputs.skipped.entries =
        [("frost", .noData), ("fire", .failed (.missingValue "fire"))] := by
  have hnames : ∀ s ∈ hazards.sets.keys, IsOwnName s := by
    have hlist : hazards.sets.keys = ["flood", "frost", "fire"] := rfl
    rw [hlist]
    simp only [List.forall_mem_cons, List.not_mem_nil, false_implies, implies_true, and_true]
    exact ⟨⟨by decide, by decide, by decide⟩, ⟨by decide, by decide, by decide⟩,
      ⟨by decide, by decide, by decide⟩⟩
  have hdefuzzifies : hazards.Defuzzifies coldRecord := by
    intro name i hi
    have hlist : hazards.conclusions coldRecord = [("flood", .ok ⟨0, 1, [⟨.ramp, 1⟩], none⟩),
        ("frost", .ok ⟨0, 1, [], some .propagating⟩),
        ("fire", .error (.missingValue "heat"))] := rfl
    rw [hlist, List.mem_cons, List.mem_cons, List.mem_singleton] at hi
    rcases hi with hi | hi | hi <;> cases hi
    · exact ⟨_, rfl⟩
    · exact ⟨_, rfl⟩
  have hskipped : (hazards.evaluate coldRecord).outputs.skipped.entries =
      [("frost", .noData), ("fire", .failed (.missingValue "heat"))] := rfl
  obtain ⟨m', hm', houtputs, halike⟩ := evaluate_combineSets (m := hazards) rfl hnames
  obtain ⟨hvalues, hskips, -⟩ := halike coldRecord hdefuzzifies
  exact ⟨hskipped, m', hm', houtputs, hvalues, by rw [hskips, hskipped]; rfl⟩

end Model

end FuzzyInference
