import FuzzyInference.Model
import FuzzyInference.Proofs.OrderedMap

/-!
# Every record accounts for every output

An output is settled by one step that stores its value, notes a skip and logs
it. A run over outputs with distinct names settles each of them once: the
values, the skips and the log are what the single outputs come to, in order.
The three ways to evaluate a record are runs of this kind.

Results:

* `settle_spec` and `settled_run`: what one step and a run of steps leave.
* `evaluate_eq_run`: an evaluation is such a run.
* `evaluate_accounts`: what an evaluation owes each output.
-/

namespace FuzzyInference

variable {α : Type}

/-! ## Verdicts -/

/-- What an output comes to. -/
inductive Verdict (α : Type) where
  | number (v : α)
  | skipped (reason : SkipReason α)

namespace Verdict

/-- What a value comes to. -/
def ofValue : Result α (Value α) → Verdict α
  | .ok (.number v) => .number v
  | .ok (.sentinel _) => .skipped .noData
  | .error e => .skipped (.failed e)

/-- What the output holds. -/
def held (noData : α) : Verdict α → α
  | .number v => v
  | .skipped _ => noData

/-- Why the output is skipped, if it is. -/
def reason? : Verdict α → Option (SkipReason α)
  | .number _ => none
  | .skipped reason => some reason

end Verdict

/-- The skips among named verdicts, in order. -/
def skips (vs : List (String × Verdict α)) : List (String × SkipReason α) :=
  vs.filterMap fun p => p.2.reason?.map fun reason => (p.1, reason)

theorem skips_append (vs ws : List (String × Verdict α)) :
    skips (vs ++ ws) = skips vs ++ skips ws :=
  List.filterMap_append

theorem mem_skips {vs : List (String × Verdict α)} {name : String} {reason : SkipReason α} :
    (name, reason) ∈ skips vs ↔ (name, Verdict.skipped reason) ∈ vs := by
  unfold skips
  rw [List.mem_filterMap]
  constructor
  · rintro ⟨⟨n, verdict⟩, hmem, h⟩
    cases verdict with
    | number v => cases h
    | skipped r =>
      cases h
      exact hmem
  · intro hmem
    exact ⟨(name, .skipped reason), hmem, rfl⟩

theorem skips_sublist (vs : List (String × Verdict α)) :
    ((skips vs).map (·.1)).Sublist (vs.map (·.1)) := by
  induction vs with
  | nil => exact List.Sublist.slnil
  | cons p vs ih =>
    obtain ⟨name, verdict⟩ := p
    cases verdict with
    | number v => exact ih.cons name
    | skipped reason => exact ih.cons_cons name

namespace Model

variable [Scalar α] {m : Model α} {record : Record α}

/-! ## Settling outputs -/

/-- Settles an output. -/
def settle (m : Model α) (e : Evaluation α) (name : String) : Verdict α → Evaluation α
  | .number v => { e with outputs := e.outputs.insert name v }
  | .skipped reason => m.skip e name reason

theorem finish_eq_settle (m : Model α) (e : Evaluation α) (name : String)
    (value : Result α (Value α)) : m.finish e name value = m.settle e name (.ofValue value) := by
  rcases value with err | (v | nd) <;> rfl

/-- Settles outputs one after the other. -/
def run (m : Model α) (e : Evaluation α) (vs : List (String × Verdict α)) : Evaluation α :=
  vs.foldl (fun e p => m.settle e p.1 p.2) e

/-- The line that is logged for a skipped output. -/
def skipLine (p : String × SkipReason α) : String := p.1 ++ " Skipped: " ++ p.2.text

/-- Exactly the outputs with these verdicts are settled, and logged behind some
    earlier lines. -/
structure Settled (m : Model α) (earlier : List String) (vs : List (String × Verdict α))
    (e : Evaluation α) : Prop where
  values : e.outputs.values.entries = vs.map fun p => (p.1, p.2.held m.config.noData.value)
  skipped : e.outputs.skipped.entries = skips vs
  log : e.log = earlier ++ (skips vs).map skipLine

variable {earlier : List String} {vs : List (String × Verdict α)} {e : Evaluation α}

theorem Settled.keys (h : m.Settled earlier vs e) : e.outputs.values.keys = vs.map (·.1) := by
  rw [OrderedMap.keys, h.values, List.map_map]
  rfl

/-- One step settles an output that was not settled before, and leaves the others as
    they were. -/
theorem settle_spec (h : m.Settled earlier vs e) {name : String} (hnew : name ∉ vs.map (·.1))
    (verdict : Verdict α) :
    m.Settled earlier (vs ++ [(name, verdict)]) (m.settle e name verdict) := by
  have hvalues : name ∉ e.outputs.values.keys := by
    rw [h.keys]
    exact hnew
  have hskipped : name ∉ e.outputs.skipped.keys := by
    rw [OrderedMap.keys, h.skipped]
    exact fun hmem => hnew ((skips_sublist vs).subset hmem)
  cases verdict with
  | number v =>
    have hskips : skips (vs ++ [(name, Verdict.number v)]) = skips vs := by
      rw [skips_append]
      exact List.append_nil _
    constructor
    · show (e.outputs.values.insert name v).entries = _
      rw [OrderedMap.entries_insert hvalues, h.values, List.map_append]
      rfl
    · show e.outputs.skipped.entries = _
      rw [hskips, h.skipped]
    · show e.log = _
      rw [hskips, h.log]
  | skipped reason =>
    have hskips : skips (vs ++ [(name, Verdict.skipped reason)]) =
        skips vs ++ [(name, reason)] := by
      rw [skips_append]
      rfl
    constructor
    · show (e.outputs.values.insert name m.config.noData.value).entries = _
      rw [OrderedMap.entries_insert hvalues, h.values, List.map_append]
      rfl
    · show (e.outputs.skipped.insert name reason).entries = _
      rw [OrderedMap.entries_insert hskipped, h.skipped, hskips]
    · show e.log ++ [skipLine (name, reason)] = _
      rw [hskips, h.log, List.map_append, List.append_assoc]
      rfl

/-- A run over new outputs with distinct names settles each of them. -/
theorem settled_run (h : m.Settled earlier vs e) {ws : List (String × Verdict α)}
    (hnodup : ((vs ++ ws).map (·.1)).Nodup) : m.Settled earlier (vs ++ ws) (m.run e ws) := by
  induction ws generalizing vs e with
  | nil =>
    rw [List.append_nil]
    exact h
  | cons p ws ih =>
    obtain ⟨name, verdict⟩ := p
    have hsplit : vs ++ (name, verdict) :: ws = (vs ++ [(name, verdict)]) ++ ws := by
      rw [List.append_assoc, List.singleton_append]
    have hnew : name ∉ vs.map (·.1) := by
      intro hmem
      rw [List.map_append, List.nodup_append] at hnodup
      exact hnodup.2.2 name hmem name List.mem_cons_self rfl
    rw [hsplit] at hnodup ⊢
    exact ih (settle_spec h hnew verdict) hnodup

/-! ## What the outputs of a record come to -/

/-- What an output evaluates to: the value of its combiner or, without combiners,
    its set's conclusion defuzzified by the configured method at the configured
    number of samples, and zero where that finds nothing. -/
inductive Yields (m : Model α) (record : Record α) : String → Result α (Value α) → Prop where
  | combiner {name : String} {c : Combiner α} (h : m.combiners.get? name = some c) :
      m.Yields record name (c.evaluate (operands (m.conclusions record)) (flags record))
  | set {name : String} {s : RuleSet α} (hnone : m.combiners.isEmpty = true)
      (h : m.sets.get? name = some s) :
      m.Yields record name (do
        let conclusion ← s.evaluate record
        let found ← conclusion.defuzzify m.config.method m.config.sampleCount
        return found.getD (.number 0))

theorem yields_of_mem {name : String} {value : Result α (Value α)}
    (h : (name, value) ∈ m.outputValues record (m.conclusions record)) :
    m.Yields record name value := by
  unfold outputValues conclusions at h
  split at h
  · rename_i hnone
    rw [List.map_map, List.mem_map] at h
    obtain ⟨⟨n, s⟩, hmem, heq⟩ := h
    cases heq
    exact .set hnone (OrderedMap.get?_eq_some_iff.2 hmem)
  · rw [List.mem_map] at h
    obtain ⟨⟨n, c⟩, hmem, heq⟩ := h
    cases heq
    exact .combiner (OrderedMap.get?_eq_some_iff.2 hmem)

/-- What each output of a record comes to, in output order. -/
def verdicts (m : Model α) (record : Record α) : List (String × Verdict α) :=
  if record.allMissing then m.outputNames.map fun name => (name, .skipped .allInputsMissing)
  else (m.outputValues record (m.conclusions record)).map fun p => (p.1, .ofValue p.2)

/-- What is logged about the sets, which are evaluated unless all inputs are
    missing. -/
def setLines (m : Model α) (record : Record α) : List String :=
  if record.allMissing then [] else failures (m.conclusions record)

theorem map_fst_verdicts (m : Model α) (record : Record α) :
    (m.verdicts record).map (·.1) = m.outputNames := by
  unfold verdicts
  split
  · rw [List.map_map]
    exact List.map_id _
  · unfold outputValues outputNames conclusions
    split
    · simp only [List.map_map]
      rfl
    · simp only [List.map_map]
      rfl

omit [Scalar α] in
theorem nodup_outputNames (m : Model α) : m.outputNames.Nodup := by
  unfold outputNames
  split
  · exact m.sets.nodup
  · exact m.combiners.nodup

theorem evaluate_eq_run (m : Model α) (record : Record α) :
    m.evaluate record = m.run ⟨.empty, m.setLines record⟩ (m.verdicts record) := by
  unfold evaluate run setLines verdicts
  split
  · rw [List.foldl_map]
    rfl
  · rw [List.foldl_map]
    simp only [finish_eq_settle]

/-- The outputs of a record are settled, and nothing else. -/
theorem settled_evaluate (m : Model α) (record : Record α) :
    m.Settled (m.setLines record) (m.verdicts record) (m.evaluate record) := by
  have hstart : m.Settled (m.setLines record) [] ⟨.empty, m.setLines record⟩ :=
    ⟨rfl, rfl, (List.append_nil _).symm⟩
  rw [evaluate_eq_run, ← List.nil_append (m.verdicts record)]
  apply settled_run hstart
  rw [List.nil_append, map_fst_verdicts]
  exact m.nodup_outputNames

theorem mem_skipped_iff {name : String} {reason : SkipReason α} :
    (name, reason) ∈ (m.evaluate record).outputs.skipped.entries ↔
      (name, Verdict.skipped reason) ∈ m.verdicts record := by
  rw [(m.settled_evaluate record).skipped, mem_skips]

/-- What an output holds is read off its verdict. -/
theorem get?_of_mem_verdicts {name : String} {verdict : Verdict α}
    (h : (name, verdict) ∈ m.verdicts record) :
    (m.evaluate record).outputs.get? name = some (verdict.held m.config.noData.value) := by
  refine OrderedMap.get?_eq_some_iff.2 ?_
  rw [(m.settled_evaluate record).values]
  exact List.mem_map.2 ⟨(name, verdict), h, rfl⟩

theorem isSkipped_of_mem_verdicts {name : String} {reason : SkipReason α}
    (h : (name, Verdict.skipped reason) ∈ m.verdicts record) :
    (m.evaluate record).outputs.isSkipped name = true :=
  OrderedMap.contains_iff.2 (List.mem_map.2 ⟨(name, reason), mem_skipped_iff.2 h, rfl⟩)

/-! ## The account -/

/-- Why an output of a record is skipped. -/
inductive Skips (m : Model α) (record : Record α) (name : String) : SkipReason α → Prop where
  | allInputsMissing (h : record.allMissing = true) : m.Skips record name .allInputsMissing
  | noData {nd : Sentinel α} (hpresent : record.allMissing = false)
      (h : m.Yields record name (.ok (.sentinel nd))) : m.Skips record name .noData
  | failed {err : Error α} (hpresent : record.allMissing = false)
      (h : m.Yields record name (.error err)) : m.Skips record name (.failed err)

/-- What an evaluation owes the outputs of a record. -/
structure Accounts (m : Model α) (record : Record α) (e : Evaluation α) : Prop where
  /-- The outputs are there, each once and in order. -/
  names : e.outputs.values.keys = m.outputNames ∧ m.outputNames.Nodup
  /-- Skipped outputs are listed once and in output order. -/
  skippedNames : e.outputs.skipped.keys.Sublist m.outputNames
  /-- A skipped output holds the no-data value, for a reason. -/
  skipped : ∀ name reason, (name, reason) ∈ e.outputs.skipped.entries →
    e.outputs.get? name = some m.config.noData.value ∧ m.Skips record name reason
  /-- Any other output holds the number it evaluates to. -/
  numbers : ∀ name ∈ m.outputNames, e.outputs.isSkipped name = false →
    ∃ v, e.outputs.get? name = some v ∧ m.Yields record name (.ok (.number v))
  /-- The log has a line for each set that failed, and then one for each skipped
      output. -/
  log : e.log = (if record.allMissing then [] else m.sets.entries.filterMap fun p =>
      match p.2.evaluate record with
      | .ok _ => none
      | .error err => some ("Set " ++ p.1 ++ " failed: " ++ err.message)) ++
    e.outputs.skipped.entries.map fun p => p.1 ++ " Skipped: " ++ p.2.text
  /-- Without any data every output is skipped, and nothing is logged about sets. -/
  allMissing : record.isEmpty = false → (∀ v ∈ record.values.values, v.isSentinel = true) →
    e.outputs.skipped.entries = m.outputNames.map (fun name => (name, .allInputsMissing)) ∧
    e.log = m.outputNames.map fun name => name ++ " Skipped: " ++ "no input data"

theorem setLines_eq (m : Model α) (record : Record α) :
    m.setLines record = if record.allMissing then [] else m.sets.entries.filterMap fun p =>
      match p.2.evaluate record with
      | .ok _ => none
      | .error err => some ("Set " ++ p.1 ++ " failed: " ++ err.message) := by
  unfold setLines failures conclusions
  rw [List.filterMap_map]
  rfl

theorem skips_of_mem {name : String} {reason : SkipReason α}
    (h : (name, Verdict.skipped reason) ∈ m.verdicts record) : m.Skips record name reason := by
  unfold verdicts at h
  split at h
  · rename_i hmissing
    obtain ⟨n, -, heq⟩ := List.mem_map.1 h
    cases heq
    exact .allInputsMissing hmissing
  · rename_i hpresent
    rw [Bool.not_eq_true] at hpresent
    obtain ⟨⟨n, value⟩, hmem, heq⟩ := List.mem_map.1 h
    have hyields := yields_of_mem hmem
    rcases value with err | (v | nd)
    · cases heq
      exact .failed hpresent hyields
    · cases heq
    · cases heq
      exact .noData hpresent hyields

theorem yields_number_of_mem {name : String} {v : α}
    (h : (name, Verdict.number v) ∈ m.verdicts record) :
    m.Yields record name (.ok (.number v)) := by
  unfold verdicts at h
  split at h
  · obtain ⟨n, -, heq⟩ := List.mem_map.1 h
    cases heq
  · obtain ⟨⟨n, value⟩, hmem, heq⟩ := List.mem_map.1 h
    have hyields := yields_of_mem hmem
    rcases value with err | (w | nd) <;> cases heq
    exact hyields

theorem skips_verdicts_of_allMissing (h : record.allMissing = true) :
    skips (m.verdicts record) = m.outputNames.map fun name => (name, .allInputsMissing) := by
  unfold verdicts skips
  rw [if_pos h, List.filterMap_map]
  exact congrFun List.filterMap_eq_map' m.outputNames

/-- An evaluation accounts for every output of the record exactly once: it holds a
    number, or it is skipped and says so. -/
theorem evaluate_accounts (m : Model α) (record : Record α) :
    m.Accounts record (m.evaluate record) := by
  have h := m.settled_evaluate record
  constructor
  case names => exact ⟨by rw [h.keys, map_fst_verdicts], m.nodup_outputNames⟩
  case skippedNames =>
    have hsub := skips_sublist (m.verdicts record)
    rw [map_fst_verdicts] at hsub
    rw [OrderedMap.keys, h.skipped]
    exact hsub
  case skipped =>
    intro name reason hmem
    have hverdict := mem_skipped_iff.1 hmem
    exact ⟨get?_of_mem_verdicts hverdict, skips_of_mem hverdict⟩
  case numbers =>
    intro name hname hnot
    rw [← m.map_fst_verdicts record, List.mem_map] at hname
    obtain ⟨⟨n, verdict⟩, hmem, rfl⟩ := hname
    cases verdict with
    | number v => exact ⟨v, get?_of_mem_verdicts hmem, yields_number_of_mem hmem⟩
    | skipped reason =>
      rw [isSkipped_of_mem_verdicts hmem] at hnot
      cases hnot
  case log =>
    rw [h.log, h.skipped, setLines_eq]
    rfl
  case allMissing =>
    intro hsome hall
    have hmissing : record.allMissing = true := by
      rw [Record.allMissing, hsome]
      exact List.all_eq_true.2 hall
    refine ⟨by rw [h.skipped, skips_verdicts_of_allMissing hmissing], ?_⟩
    rw [h.log, skips_verdicts_of_allMissing hmissing, setLines, if_pos hmissing, List.nil_append,
      List.map_map]
    rfl

end Model

end FuzzyInference
