import FuzzyInference.Proofs.Combiner.Absence
import FuzzyInference.Proofs.Model.OwnCombiners
import FuzzyInference.Scalar.Binary64

/-!
# Valid models are supplied

Validation accepts a combiner if every name that it expects is a set or the flag
of an input. So when every set has a conclusion, and every flag that is
mentioned is about an input of the record, no combiner misses a name: not before
it settles its operands, not while it settles them, and not in its formula.

Results:

* `get?_flags_mark`: what the flag of an input says.
* `evaluate_supplied`: no output is skipped for want of a name.
-/

namespace FuzzyInference.Model

variable {α : Type} [Scalar α] {m : Model α} {record : Record α} {c : Combiner α} {n name : String}

/-! ## Flags -/

theorem flagMark_injective : Function.Injective (flagMark ++ ·) := by
  intro x y h
  have hlist := congrArg String.toList h
  rw [String.toList_append, String.toList_append, List.append_cancel_left_eq] at hlist
  exact String.toList_injective hlist

theorem exists_of_isPrefixOf (h : flagMark.isPrefixOf n = true) : ∃ x, n = flagMark ++ x := by
  rw [String.isPrefixOf, String.startsWith_string_iff] at h
  obtain ⟨rest, hrest⟩ := h
  refine ⟨.ofList rest, String.toList_injective ?_⟩
  rw [String.toList_append, String.toList_ofList, hrest]

/-- What the flag of a value says: one for missing data, and zero for a number. -/
def flagOf (v : Value α) : Value α := .number (if v.isSentinel then 1 else 0)

/-- The flag of an input says whether its value is missing. -/
theorem get?_flags_mark (record : Record α) (x : String) :
    (flags record).get? (flagMark ++ x) = (record.get? x).map flagOf := by
  have hentries : (flags record).entries = record.values.entries.map fun e =>
      (flagMark ++ e.1, flagOf e.2) := by
    refine OrderedMap.entries_ofList ?_
    have hnodup := record.values.nodup.map flagMark_injective
    rwa [List.map_map] at hnodup ⊢
  refine Option.ext fun w => ?_
  rw [OrderedMap.get?_eq_some_iff, hentries, List.mem_map, Option.map_eq_some_iff]
  constructor
  · rintro ⟨⟨y, v⟩, hmem, h⟩
    obtain ⟨hname, rfl⟩ := Prod.mk.inj h
    obtain rfl := flagMark_injective hname
    exact ⟨v, OrderedMap.get?_eq_some_iff.2 hmem, rfl⟩
  · rintro ⟨v, hv, rfl⟩
    exact ⟨(x, v), OrderedMap.get?_eq_some_iff.1 hv, rfl⟩

/-! ## What is supplied -/

omit [Scalar α] in
/-- Validation accepts a combiner that expects sets and flags only. -/
theorem checkCombiner_eq_ok : m.checkCombiner c = .ok () ↔
    ∀ n ∈ c.expectedNames, m.sets.contains n = true ∨ flagMark.isPrefixOf n = true := by
  rw [checkCombiner]
  cases hfind : c.expectedNames.find? fun n => !m.sets.contains n && !flagMark.isPrefixOf n with
  | some n =>
    have hn := List.find?_some hfind
    refine iff_of_false nofun fun h => ?_
    rcases h n (List.mem_of_find?_eq_some hfind) with h | h <;> simp [h] at hn
  | none =>
    refine iff_of_true rfl fun n hn => ?_
    have hnot := List.find?_eq_none.1 hfind n hn
    simpa [or_iff_not_imp_left] using hnot

/-- A valid model whose combiners expect what they mention, and a record that has
    what it asks for: data, conclusions of all sets, and an input for each flag. -/
structure Supplied (m : Model α) (record : Record α) : Prop where
  valid : m.validate = .ok ()
  discovered : ∀ name c, m.combiners.get? name = some c → c.givenNames = none
  present : record.allMissing = false
  concludes : ∀ name s, m.sets.get? name = some s → ∃ i, s.evaluate record = .ok i
  flagged : ∀ name c x, m.combiners.get? name = some c → flagMark ++ x ∈ c.formula.mentions →
    ∃ v, record.get? x = some v

/-- A name that a combiner mentions is a set with a conclusion, or the flag of an
    input. -/
theorem Supplied.mentioned (h : m.Supplied record) (hc : m.combiners.get? name = some c)
    (hn : n ∈ c.formula.mentions) :
    (∃ i, (operands (m.conclusions record)).get? n = some (.implication i)) ∨
      ∃ x v, n = flagMark ++ x ∧ record.get? x = some v := by
  have hcheck : m.checkCombiner c = .ok () := by
    obtain ⟨-, -, hrest⟩ := bind_eq_ok.1 h.valid
    obtain ⟨-, -, hcombiners⟩ := bind_eq_ok.1 hrest
    have hmem := OrderedMap.get?_eq_some_iff.1 hc
    exact forM_eq_ok.1 hcombiners c (List.mem_map.2 ⟨_, hmem, rfl⟩)
  have hexpected : n ∈ c.expectedNames := by
    rw [Combiner.expectedNames, h.discovered name c hc]
    exact Formula.mem_names_iff.2 hn
  rcases checkCombiner_eq_ok.1 hcheck n hexpected with hset | hflag
  · left
    obtain ⟨s, hs⟩ := Option.isSome_iff_exists.1 hset
    obtain ⟨i, hi⟩ := h.concludes n s hs
    refine ⟨i, (get?_operands (m.nodup_conclusions record)).2 ⟨i, ?_, rfl⟩⟩
    rw [← hi]
    exact List.mem_map.2 ⟨(n, s), OrderedMap.get?_eq_some_iff.1 hs, rfl⟩
  · right
    obtain ⟨x, rfl⟩ := exists_of_isPrefixOf hflag
    obtain ⟨v, hv⟩ := h.flagged name c x hc hn
    exact ⟨x, v, rfl, hv⟩

theorem Supplied.absent? (h : m.Supplied record) (hc : m.combiners.get? name = some c) :
    c.absent? (operands (m.conclusions record)) (flags record) = none := by
  rw [Combiner.absent?, List.find?_eq_none]
  intro n hn
  rw [Combiner.expectedNames, h.discovered name c hc] at hn
  rcases h.mentioned hc (Formula.mem_names_iff.1 hn) with ⟨i, hi⟩ | ⟨x, v, rfl, hv⟩
  · simp [OrderedMap.contains, hi]
  · simp [OrderedMap.contains, get?_flags_mark, hv]

/-- What a combiner of a model reads for a record. -/
def readings (m : Model α) (record : Record α) (c : Combiner α) : String → Option (Value α) :=
  c.reading (operands (m.conclusions record)) (flags record)

/-- When all operands are settled, every name that is mentioned is read as
    something. -/
theorem Supplied.reading (h : m.Supplied record) (hc : m.combiners.get? name = some c)
    (hsettled : ∀ n e, ¬ c.Unsettled (operands (m.conclusions record)) n e)
    (hn : n ∈ c.formula.mentions) : ∃ v, m.readings record c n = some v := by
  refine Combiner.exists_reading hsettled ?_
  rcases h.mentioned hc hn with ⟨i, hi⟩ | ⟨x, v, rfl, hv⟩
  · exact .inl (by rw [OrderedMap.contains, hi]; rfl)
  · exact .inr (by rw [OrderedMap.contains, get?_flags_mark, hv]; rfl)

/-- A combiner of a supplied model misses no name. -/
theorem Supplied.combiner_not_missing (h : m.Supplied record)
    (hc : m.combiners.get? name = some c) :
    c.evaluate (operands (m.conclusions record)) (flags record) ≠ .error (.missingValue n) := by
  intro hmissing
  -- A combiner checks its names, settles its operands and evaluates its formula, in this order.
  rcases c.evaluate_cases (operands (m.conclusions record)) (flags record) with
    ⟨x, hx, -⟩ | ⟨-, x, e, he, hrun⟩ | ⟨-, hsettled, hrun⟩
  · rw [h.absent? hc] at hx
    cases hx
  · cases hrun.symm.trans hmissing
    exact he.isNumeric
  · rcases Formula.evaluate_eq_error (hrun.symm.trans hmissing) with ⟨x, hx, hnone, -⟩ | hnumeric
    · obtain ⟨v, hv⟩ := h.reading hc hsettled hx
      cases hnone.symm.trans hv
    · exact hnumeric

/-- A set that is an output of its own misses no name. -/
theorem Supplied.set_not_missing (h : m.Supplied record) {s : RuleSet α}
    (hs : m.sets.get? name = some s) : m.direct (s.evaluate record) ≠ .error (.missingValue n) := by
  obtain ⟨i, hi⟩ := h.concludes name s hs
  rw [hi]
  exact (numeric_bind (i.numeric_defuzzify _ _) fun _ => numeric_ok _).not_missing n

/-- A flag that is not hidden by a set is read as what it says about its input. -/
theorem Supplied.reading_flag (h : m.Supplied record)
    (hc : m.combiners.get? name = some c) {x : String} (hx : flagMark ++ x ∈ c.formula.mentions)
    (hset : m.sets.contains (flagMark ++ x) = false) :
    ∃ v, record.get? x = some v ∧ m.readings record c (flagMark ++ x) = some (flagOf v) := by
  obtain ⟨v, hv⟩ := h.flagged name c x hc hx
  refine ⟨v, hv, ?_⟩
  have hnone : (operands (m.conclusions record)).get? (flagMark ++ x) = none := by
    rw [← Option.not_isSome_iff_eq_none, Option.isSome_iff_exists]
    rintro ⟨o, ho⟩
    obtain ⟨i, hi, -⟩ := (get?_operands (m.nodup_conclusions record)).1 ho
    obtain ⟨⟨y, s⟩, hs, heq⟩ := List.mem_map.1 hi
    have hname : y = flagMark ++ x := congrArg Prod.fst heq
    rw [hname] at hs
    rw [OrderedMap.contains, OrderedMap.get?_eq_some_iff.2 hs] at hset
    cases hset
  rw [readings, Combiner.reading, hnone, get?_flags_mark, hv]
  rfl

/-- No output of a supplied model is skipped for want of a name. Its combiners
    evaluate their formulas, unless a conclusion cannot be defuzzified, and read
    each flag as what it says about its input: one for a sentinel of any kind, and
    zero for a number. -/
theorem evaluate_supplied (h : m.Supplied record) :
    (∀ name n, (name, .failed (.missingValue n)) ∉ (m.evaluate record).outputs.skipped.entries) ∧
    ∀ name c, m.combiners.get? name = some c →
      (∃ value, m.Yields record name value ∧ (value = c.formula.evaluate (m.readings record c) ∨
        ∃ set e, c.Unsettled (operands (m.conclusions record)) set e ∧ value = .error e)) ∧
      ∀ x, flagMark ++ x ∈ c.formula.mentions → m.sets.contains (flagMark ++ x) = false →
        ∃ v, record.get? x = some v ∧
          m.readings record c (flagMark ++ x) = some (.number (if v.isSentinel then 1 else 0)) := by
  constructor
  · intro name n hmem
    cases skips_of_mem (mem_skipped_iff.1 hmem) with
    | failed _ hyields =>
      generalize hvalue : (Except.error (.missingValue n) : Result α (Value α)) = value at hyields
      cases hyields with
      | combiner hc => exact h.combiner_not_missing hc hvalue.symm
      | set _ hs => exact h.set_not_missing hs hvalue.symm
  · intro name c hc
    refine ⟨⟨_, .combiner hc, ?_⟩, fun x hx hset => h.reading_flag hc hx hset⟩
    rcases c.evaluate_cases (operands (m.conclusions record)) (flags record) with
      ⟨x, hx, -⟩ | ⟨-, set, e, he, hrun⟩ | ⟨-, -, hrun⟩
    · rw [h.absent? hc] at hx
      cases hx
    · exact .inr ⟨set, e, he, hrun⟩
    · exact .inl hrun

/-- A set with one rule about the depth of the water. -/
def flood : RuleSet Float :=
  { RuleSet.make (.ofList [⟨"depth", 0, 30, .ofList [("deep", .ramp)]⟩])
      ⟨"hazard", 0, 1, .ofList [("high", .ramp)]⟩ with
    rules := [⟨"IF depth IS deep THEN hazard IS high", .query "depth" "deep", "hazard", "high",
      .ofList [("depth", "deep")]⟩] }

/-- What the flood comes to, and twice that when nothing is known of the wind. -/
def total : Combiner Float :=
  ⟨"water * (1 + SRC_NO_DATA.wind)",
    .binary .multiply (.name "water") (.binary .add (.number 1) (.name "SRC_NO_DATA.wind")), none,
    .empty,
    .centroid, 10⟩

/-- A set that asks for depth and wind, and a combiner that reads the flag of the
    wind. -/
def floodModel : Model Float := ⟨.default, .ofList [("water", flood)], .ofList [("total", total)]⟩

/-- A depth, and a wind that is to be ignored. -/
def floodRecord : Record Float := .ofList [("depth", .number 15), ("wind", .sentinel .ignoring)]

/-- Nothing is missing, and the flag of the ignored wind is one. -/
theorem evaluate_flood :
    floodModel.Supplied floodRecord ∧
      (∀ name n, (name, .failed (.missingValue n)) ∉
        (floodModel.evaluate floodRecord).outputs.skipped.entries) ∧
      floodModel.readings floodRecord total (flagMark ++ "wind") = some (.number 1) := by
  have hsupplied : floodModel.Supplied floodRecord := by
    constructor
    case valid => cbv
    case discovered =>
      intro name c hc
      cases List.mem_singleton.1 (OrderedMap.get?_eq_some_iff.1 hc)
      rfl
    case present => rfl
    case concludes =>
      intro name s hs
      cases List.mem_singleton.1 (OrderedMap.get?_eq_some_iff.1 hs)
      exact ⟨_, rfl⟩
    case flagged =>
      intro name c x hc hx
      cases List.mem_singleton.1 (OrderedMap.get?_eq_some_iff.1 hc)
      have hmark : "SRC_NO_DATA.wind" = flagMark ++ "wind" := by decide
      rcases List.mem_cons.1 hx with h | h
      · have hlist := congrArg String.toList h
        simp [flagMark] at hlist
      · obtain rfl := flagMark_injective ((List.mem_singleton.1 h).trans hmark)
        exact ⟨_, rfl⟩
  obtain ⟨hskipped, hcombiners⟩ := evaluate_supplied hsupplied
  have hmark : "SRC_NO_DATA.wind" = flagMark ++ "wind" := by decide
  have hmentions : flagMark ++ "wind" ∈ total.formula.mentions := by
    rw [← hmark]
    decide
  obtain ⟨v, hv, hflag⟩ := (hcombiners "total" total rfl).2 "wind" hmentions rfl
  cases hv
  exact ⟨hsupplied, hskipped, hflag⟩

end FuzzyInference.Model
