import FuzzyInference.Proofs.Scalar.Numeral
import FuzzyInference.Rule.Fold

/-!
# Keywords

The words that conditions reserve, in any letter case. None of them is a
numeral, so an item with a condition of its own is never one of them.

Results:

* `LogicOp.ofKeyword?_eq_some` and `RuleFunction.ofKeyword?_eq_some`: the words
  of connectives and functions.
* `not_isReserved_of_toExpr`: an item that is a condition is not reserved.
-/

namespace FuzzyInference

theorem LogicOp.toLower_keyword : LogicOp.and.keyword.toLower = "and" ∧
    LogicOp.or.keyword.toLower = "or" ∧ LogicOp.xor.keyword.toLower = "xor" := by
  refine ⟨?_, ?_, ?_⟩ <;> cbv

theorem RuleFunction.toLower_keyword : RuleFunction.sum.keyword.toLower = "sum" ∧
    RuleFunction.product.keyword.toLower = "product" ∧
    RuleFunction.gamma.keyword.toLower = "gamma" := by
  refine ⟨?_, ?_, ?_⟩ <;> cbv

/-- A word joins two operands exactly if it is the connective's keyword up to letter
    case. -/
theorem LogicOp.ofKeyword?_eq_some {w : String} {op : LogicOp} :
    LogicOp.ofKeyword? w = some op ↔ w.toLower = op.keyword.toLower := by
  obtain ⟨hand, hor, hxor⟩ := toLower_keyword
  unfold ofKeyword?
  constructor
  · intro hw
    split at hw <;> cases hw <;> simp only [hand, hor, hxor] <;> assumption
  · intro hw
    cases op <;> simp only [hw, hand, hor, hxor]

/-- A word calls a function exactly if it is the function's keyword up to letter
    case. -/
theorem RuleFunction.ofKeyword?_eq_some {w : String} {f : RuleFunction} :
    RuleFunction.ofKeyword? w = some f ↔ w.toLower = f.keyword.toLower := by
  obtain ⟨hsum, hproduct, hgamma⟩ := toLower_keyword
  unfold ofKeyword?
  constructor
  · intro hw
    split at hw <;> cases hw <;> simp only [hsum, hproduct, hgamma] <;> assumption
  · intro hw
    cases f <;> simp only [hw, hsum, hproduct, hgamma]

/-- A word that calls no function. -/
theorem RuleFunction.ofKeyword?_eq_none {w : String}
    (h : ∀ f : RuleFunction, w.toLower ≠ f.keyword.toLower) : RuleFunction.ofKeyword? w = none := by
  cases hf : RuleFunction.ofKeyword? w with
  | none => rfl
  | some f => exact absurd (RuleFunction.ofKeyword?_eq_some.1 hf) (h f)

namespace Item

theorem toLower_comma : ",".toLower = "," := by cbv

theorem reserved_connective (op : LogicOp) : op.keyword.toLower ∈ reserved := by
  obtain ⟨hand, hor, hxor⟩ := LogicOp.toLower_keyword
  cases op <;> simp [hand, hor, hxor, reserved]

theorem reserved_function (f : RuleFunction) : f.keyword.toLower ∈ reserved := by
  obtain ⟨hsum, hproduct, hgamma⟩ := RuleFunction.toLower_keyword
  cases f <;> simp [hsum, hproduct, hgamma, reserved]

/-! ## Reserved words are no numerals -/

/-- The characters that reserved words start with, in lower case. -/
def initials : List Char := ['i', 'n', 't', 'd', ',', 'a', 'o', 'x', 's', 'p', 'g']

theorem head?_of_reserved {cs : List Char} (h : cs ∈ reserved.map String.toList) :
    ∃ c ∈ initials, cs.head? = some c := by
  have hall : (reserved.map String.toList).all
      (fun cs => cs.head?.any initials.contains) = true := by
    decide
  have hcs := List.all_eq_true.1 hall cs h
  cases hhead : cs.head? with
  | none => simp [hhead] at hcs
  | some c => exact ⟨c, by simpa [hhead] using hcs, rfl⟩

theorem ne_of_toLower {c d : Char} (hc : c.toLower ∈ initials) (hd : d.toLower = d)
    (hnot : d ∉ initials) : c ≠ d := by
  rintro rfl
  rw [hd] at hc
  exact hnot hc

theorem isDigit_of_initial {c : Char} (hc : c.toLower ∈ initials) : c.isDigit = false := by
  have hall : initials.all (fun d => !d.isDigit) = true := by decide
  cases hdigit : c.isDigit with
  | false => rfl
  | true =>
    rw [Numeral.toLower_digit hdigit] at hc
    have hnot := List.all_eq_true.1 hall c hc
    simp [hdigit] at hnot

theorem read?_of_reserved {w : String} (h : w.toLower ∈ reserved) : Numeral.read? w = none := by
  have hchars : w.toList.map Char.toLower ∈ reserved.map String.toList := by
    rw [← String.toList_map]
    exact List.mem_map_of_mem h
  obtain ⟨k, hk, hhead⟩ := head?_of_reserved hchars
  cases hw : w.toList with
  | nil => simp [hw] at hhead
  | cons c cs =>
    rw [hw] at hchars hhead
    have hc : c.toLower ∈ initials := by
      rw [List.map_cons, List.head?_cons, Option.some.injEq] at hhead
      rwa [hhead]
    have hwords : ∀ word ∈ ["inf", "infinity", "nan"],
        word.toList ∉ reserved.map String.toList := by
      decide
    refine Numeral.read?_eq_none hw ⟨?_, ?_⟩ (isDigit_of_initial hc) ?_ ?_
    · exact ne_of_toLower hc (by decide) (by decide)
    · exact ne_of_toLower hc (by decide) (by decide)
    · exact ne_of_toLower hc (by decide) (by decide)
    · intro word hword heq
      rw [heq] at hchars
      exact hwords word hword hchars

/-! ## Items -/

variable {α : Type}

theorem isReserved_word {w : String} :
    (word w : Item α).isReserved = true ↔ w.toLower ∈ reserved := by
  simp [isReserved]

theorem isReserved_of_isWord {x : Item α} {k : String} (hx : x.isWord k = true)
    (hk : k ∈ reserved) : x.isReserved = true := by
  cases x with
  | word w =>
    have hw : w.toLower = k := by simpa [isWord] using hx
    exact isReserved_word.2 (hw ▸ hk)
  | group es => cases hx
  | done e => cases hx

theorem isWord_of_not_isReserved {x : Item α} {k : String} (hx : x.isReserved = false)
    (hk : k ∈ reserved) : x.isWord k = false := by
  cases hw : x.isWord k with
  | false => rfl
  | true =>
    rw [isReserved_of_isWord hw hk] at hx
    cases hx

/-- A word that is one keyword is no other one. -/
theorem isWord_unique {x : Item α} {k l : String} (hx : x.isWord k = true) (hkl : k ≠ l) :
    x.isWord l = false := by
  cases x with
  | word w =>
    have hw : w.toLower = k := by simpa [isWord] using hx
    simp [isWord, hw, hkl]
  | group es => rfl
  | done e => rfl

theorem isWord_of_connective? {x : Item α} {op : LogicOp} (hx : x.connective? = some op) :
    x.isWord op.keyword.toLower = true := by
  cases x with
  | word w => simpa [isWord] using LogicOp.ofKeyword?_eq_some.1 hx
  | group es => cases hx
  | done e => cases hx

theorem isReserved_of_connective? {x : Item α} {op : LogicOp} (hx : x.connective? = some op) :
    x.isReserved = true :=
  isReserved_of_isWord (isWord_of_connective? hx) (reserved_connective op)

theorem connective?_of_not_isReserved {x : Item α} (hx : x.isReserved = false) :
    x.connective? = none := by
  cases hop : x.connective? with
  | none => rfl
  | some op =>
    rw [isReserved_of_connective? hop] at hx
    cases hx

/-- A connective is neither `IS` nor `NOT`. -/
theorem isWord_of_connective?_of_ne {x : Item α} {op : LogicOp} {k : String}
    (hx : x.connective? = some op) (hk : k = "is" ∨ k = "not") : x.isWord k = false := by
  obtain ⟨hand, hor, hxor⟩ := LogicOp.toLower_keyword
  refine isWord_unique (isWord_of_connective? hx) ?_
  rcases hk with rfl | rfl <;> cases op <;> simp [hand, hor, hxor]

variable [Scalar α]

theorem not_isReserved_of_toExpr {x : Item α} {e : Expr α} (h : x.toExpr = .ok e) :
    x.isReserved = false := by
  cases x with
  | word w =>
    cases hr : (word w : Item α).isReserved with
    | false => rfl
    | true =>
      have hread := read?_of_reserved (isReserved_word.1 hr)
      simp [toExpr, Scalar.read?, hread] at h
  | group es => rfl
  | done e => rfl

end Item

end FuzzyInference
