import FuzzyInference.Proofs.Rule.Parts
import FuzzyInference.Proofs.Rule.Statement
import FuzzyInference.Proofs.Scalar.Unsigned
import FuzzyInference.Proofs.Text.Signs

/-!
# Printed conditions

A printed condition has parentheses around every connective and around the
arguments of every call, so its text falls apart into words that the grammar
reads in one way: as the condition that was printed.

Results:

* `Expr.cutInto_text`: the words of a printed condition.
* `isOperand_printed`: they spell the condition.
* `compileAlias_text`: a definition by a printed condition defines that
  condition.
-/

namespace FuzzyInference

/-! ## Printed numbers -/

namespace Text

theorem plain_of_isDigit {c : Char} (h : c.isDigit = true) :
    isBlank c = false ∧ c ∉ ['=', '(', ')', ','] := by
  constructor
  · have hbounds : 48 ≤ c.toNat ∧ c.toNat ≤ 57 := by
      simpa [Char.isDigit, UInt32.le_iff_toNat_le] using h
    -- the fourth change of the set is at 33 and the fifth at 133
    simp [isBlank, blanks, CharSet.has, show 9 ≤ c.toNat by omega,
      show 14 ≤ c.toNat by omega, show 32 ≤ c.toNat by omega, show 33 ≤ c.toNat by omega,
      show ¬ 133 ≤ c.toNat by omega]
  · intro hmem
    simp only [List.mem_cons, List.not_mem_nil, or_false] at hmem
    rcases hmem with rfl | rfl | rfl | rfl <;> cases h

end Text

theorem IsPlain.isDigit_or_point {cs : List Char} (h : IsPlain cs) :
    ∀ c ∈ cs, c.isDigit = true ∨ c = '.' := by
  intro d hd
  cases h with
  | whole hc hds =>
    rcases List.mem_cons.1 hd with rfl | hd
    · exact .inl hc
    · exact .inl (List.all_eq_true.1 hds d hd)
  | point hc hds hes =>
    rcases List.mem_cons.1 hd with rfl | hd
    · exact .inl hc
    · rcases List.mem_append.1 hd with hd | hd
      · exact .inl (List.all_eq_true.1 hds d hd)
      · rcases List.mem_cons.1 hd with rfl | hd
        · exact .inr rfl
        · exact .inl (List.all_eq_true.1 hes d hd)

theorem IsPlain.isWord {cs : List Char} (h : IsPlain cs) : Text.IsWord (String.ofList cs) := by
  constructor
  · intro hnil
    have hcs : cs = [] := by rw [← String.toList_ofList (l := cs), hnil]; rfl
    subst hcs
    cases h
  · intro c hc
    rw [String.toList_ofList] at hc
    rcases h.isDigit_or_point c hc with hdigit | rfl
    · exact Text.plain_of_isDigit hdigit
    · decide

/-- A printed number is one word. -/
theorem Binary64.isWord_text (x : Float) : Text.IsWord (Scalar.text x) := by
  change Text.IsWord (FloatText.message.write x)
  unfold FloatText.write
  have hsign : Text.IsRun (if Binary.signBit x then "-" else "").toList := by
    cases Binary.signBit x <;> decide
  cases x.isNaN with
  | true =>
    change Text.IsWord "NaN"
    decide
  | false =>
    cases x.isInf with
    | true =>
      change Text.IsWord (_ ++ "inf")
      exact .append hsign (by decide)
    | false =>
      have hplain := ((Binary.ofFloat x).shortest FloatText.message.tie).isPlain_positional
      exact .append hsign hplain.isWord

/-! ## Printed words -/

namespace Expr

variable {α : Type} [Scalar α]

mutual

/-- The words that a condition is printed as. -/
def printed : Expr α → List String
  | .constant value => [Scalar.text value]
  | .query input membership => [input, "IS", membership]
  | .negation e => "NOT" :: "(" :: (printed e ++ [")"])
  | .logic op l r => "(" :: (printed l ++ op.keyword :: printed r ++ [")"])
  | .call f args => f.keyword :: "(" :: ([","].intercalate (printedParts args) ++ [")"])

/-- The words that several conditions are printed as, one by one. -/
def printedParts : List (Expr α) → List (List String)
  | [] => []
  | e :: es => printed e :: printedParts es

end

end Expr

/-- Signs for parentheses and commas. -/
theorem Text.signWords : signWord? '(' = some "(".toList ∧ signWord? ')' = some ")".toList ∧
    signWord? ',' = some ",".toList := ⟨rfl, rfl, rfl⟩

theorem isWord_keyword (op : LogicOp) : Text.IsWord op.keyword := by
  cases op <;> decide

theorem isWord_function (f : RuleFunction) : Text.IsWord f.keyword := by
  cases f <;> decide

namespace Expr

open Text

theorem cutInto_parts {es : List (Expr Float)} (h : ∀ e ∈ es, CutInto e.text.toList e.printed) :
    CutInto (", ".intercalate (textsOf es)).toList ([","].intercalate (printedParts es)) := by
  induction es with
  | nil => exact .nil
  | cons e es ih =>
    obtain ⟨he, hes⟩ := List.forall_mem_cons.1 h
    cases es with
    | nil => simpa [textsOf, printedParts] using he
    | cons e' es =>
      have hrest := CutInto.nil.blank (ih hes) (c := ' ') (by decide)
      have hall := he.sign hrest signWords.2.2
      simpa [textsOf, printedParts, List.intercalate_cons_cons] using hall

theorem cutInto_text {e : Expr Float}
    (h : ∀ input membership, Occurs (.query input membership) e →
      IsWord input ∧ IsWord membership) : CutInto e.text.toList e.printed := by
  have hspace : isBlank ' ' = true := by decide
  obtain ⟨hopening, hclosing, -⟩ := signWords
  induction e with
  | constant value => exact (Binary64.isWord_text value).cutInto
  | query input membership =>
    obtain ⟨hinput, hmembership⟩ := h input membership (.refl _)
    have his : IsWord "IS" := by decide
    have hall := hinput.cutInto.blank (his.cutInto.blank hmembership.cutInto hspace) hspace
    simpa [text, printed] using hall
  | negation e ih =>
    have he := ih fun i m ho => h i m (ho.of_operand (.negated e))
    have hnot : IsWord "NOT" := by decide
    have hall := hnot.cutInto.blank (CutInto.nil.sign (he.sign .nil hclosing) hopening) hspace
    simpa [text, printed] using hall
  | logic op l r ihl ihr =>
    have hl := ihl fun i m ho => h i m (ho.of_operand (.left op l r))
    have hr := ihr fun i m ho => h i m (ho.of_operand (.right op l r))
    have hinner := hl.blank ((isWord_keyword op).cutInto.blank hr hspace) hspace
    have hall := CutInto.nil.sign (hinner.sign .nil hclosing) hopening
    simpa [text, printed] using hall
  | call f args ih =>
    have hargs :=
      cutInto_parts fun a ha => ih a ha fun i m ho => h i m (ho.of_operand (.argument f ha))
    have hall := (isWord_function f).cutInto.sign (hargs.sign .nil hclosing) hopening
    simpa [text, printed] using hall

end Expr

/-! ## Printed words and the grammar -/

namespace Condition

/-- A word that is not reserved. -/
def IsName (w : String) : Prop := Text.IsWord w ∧ w.toLower ∉ Item.reserved

/-- Nothing in a condition is negated, its queries are about names, and its
    constants read back from their texts. -/
structure IsPrintable (e : Expr Float) : Prop where
  affirmed : ∀ d, ¬ Expr.Occurs (.negation d) e
  named : ∀ input membership, Expr.Occurs (.query input membership) e →
    IsName input ∧ IsName membership
  reads : ∀ x, Expr.Occurs (.constant x) e → Scalar.read? (Scalar.text x) = some x

theorem IsPrintable.of_operand {q e : Expr Float} (h : IsPrintable e) (hq : Expr.IsOperand q e) :
    IsPrintable q where
  affirmed d hd := h.affirmed d (hd.of_operand hq)
  named i m hi := h.named i m (hi.of_operand hq)
  reads x hx := h.reads x (hx.of_operand hq)

theorem notParenthesis_of_isWord {w : String} (h : Text.IsWord w) : NotParenthesis w := by
  constructor <;> rintro rfl
  · exact absurd h (by decide)
  · exact absurd h (by decide)

theorem IsName.isPlain {w : String} (h : IsName w) : IsPlain (.empty : AliasTable Float) w :=
  ⟨notParenthesis_of_isWord h.1, rfl, h.2⟩

theorem isPlain_text {x : Float} (h : Scalar.read? (Scalar.text x) = some x) :
    IsPlain (.empty : AliasTable Float) (Scalar.text x) := by
  refine IsName.isPlain ⟨Binary64.isWord_text x, fun hreserved => ?_⟩
  rw [Scalar.read?, Item.read?_of_reserved hreserved] at h
  cases h

theorem areParts_printed {e : Expr Float} {es : List (Expr Float)}
    (h : ∀ a ∈ e :: es, IsOperand .empty a.printed a) :
    AreParts .empty ([","].intercalate (Expr.printedParts (e :: es))) (e :: es) := by
  induction es generalizing e with
  | nil =>
    rw [Expr.printedParts, Expr.printedParts, List.intercalate_singleton]
    exact .last (.operand (h e List.mem_cons_self))
  | cons e' es ih =>
    obtain ⟨he, hes⟩ := List.forall_mem_cons.1 h
    rw [Expr.printedParts, Expr.printedParts, List.intercalate_cons_cons, List.append_assoc]
    exact .more (.operand he) (ih hes)

theorem areArguments_printed {es : List (Expr Float)} (h : ∀ a ∈ es, IsOperand .empty a.printed a) :
    AreArguments .empty ([","].intercalate (Expr.printedParts es)) es := by
  cases es with
  | nil => exact .none
  | cons e es => exact .some (areParts_printed h)

/-- The words of a printed condition spell the condition. -/
theorem isOperand_printed {e : Expr Float} (h : IsPrintable e) : IsOperand .empty e.printed e := by
  induction e with
  | constant value =>
    have hread := h.reads value (.refl _)
    exact .number (isPlain_text hread) hread
  | query input membership =>
    obtain ⟨hinput, hmembership⟩ := h.named input membership (.refl _)
    have his : IsKeyword (.empty : AliasTable Float) "is" "IS" :=
      ⟨notParenthesis_of_isWord (by decide), rfl, by cbv⟩
    exact .query hinput.isPlain his hmembership.isPlain
  | negation e => exact absurd (.refl _) (h.affirmed e)
  | logic op l r ihl ihr =>
    have hop : Joins (.empty : AliasTable Float) op op.keyword :=
      ⟨notParenthesis_of_isWord (isWord_keyword op), rfl, rfl⟩
    rw [Expr.printed]
    exact .group (.join (.operand (ihl (h.of_operand (.left op l r)))) hop
      (ihr (h.of_operand (.right op l r))))
  | call f args ih =>
    have hf : Calls (.empty : AliasTable Float) f f.keyword :=
      ⟨notParenthesis_of_isWord (isWord_function f), rfl, rfl⟩
    rw [Expr.printed]
    exact .call hf (areArguments_printed fun a ha => ih a ha (h.of_operand (.argument f ha)))

/-- A definition by a printed condition gives the condition back. -/
theorem compileAlias_text {name : String} {e : Expr Float} (hname : Text.IsWord name)
    (he : IsPrintable e) :
    compileAlias .empty ("DEF " ++ name ++ " IS " ++ e.text) = .ok (name, e) := by
  have hspace : Text.isBlank ' ' = true := by decide
  have hdef : Text.IsWord "DEF" := by decide
  have his : Text.IsWord "IS" := by decide
  have htext := Expr.cutInto_text fun i m ho => ⟨(he.named i m ho).1.1, (he.named i m ho).2.1⟩
  have hline :=
    hdef.cutInto.blank (hname.cutInto.blank (his.cutInto.blank htext hspace) hspace) hspace
  have hwords : Text.statementWords ("DEF " ++ name ++ " IS " ++ e.text) = "DEF" :: name :: "IS" ::
      e.printed := by
    refine Text.CutInto.statementWords ?_
    simpa using hline
  have hcomma : (.empty : AliasTable Float).get? "," = none := rfl
  rw [compileAlias_eq_ok hcomma, hwords]
  exact .definition (by cbv) (by cbv) (.operand (isOperand_printed he))

/-- Connectives grouped to the left, calls without and with several arguments, and a
    constant. -/
def shelter : Expr Float :=
  .logic .xor (.logic .and (.call .sum []) (.query "wind" "low"))
    (.call .gamma [.constant 0.1, .call .product [.query "wave" "high"]])

theorem compileAlias_shelter :
    shelter.text = "((SUM() AND wind IS low) XOR GAMMA(0.1, PRODUCT(wave IS high)))" ∧
      compileAlias
        .empty "DEF calm IS ((SUM() AND wind IS low) XOR GAMMA(0.1, PRODUCT(wave IS high)))" =
        .ok ("calm", shelter) := by
  have htenth : Scalar.text (0.1 : Float) = "0.1" := by decide +kernel
  have hread : Scalar.read? "0.1" = some (0.1 : Float) := by decide +kernel
  have htext :
      shelter.text = "((SUM() AND wind IS low) XOR GAMMA(0.1, PRODUCT(wave IS high)))" := by
    simp [shelter, Expr.text, Expr.textsOf, htenth]
    rfl
  obtain ⟨hwind, hlow, hwave, hhigh⟩ : IsName "wind" ∧ IsName "low" ∧ IsName "wave" ∧
      IsName "high" := by
    refine ⟨⟨by decide, ?_⟩, ⟨by decide, ?_⟩, ⟨by decide, ?_⟩, ⟨by decide, ?_⟩⟩ <;> decide +kernel
  have hprintable : IsPrintable shelter := by
    constructor
    case affirmed => simp [shelter, Expr.occurs_iff]
    case named =>
      intro input membership hoccurs
      rcases List.mem_cons.1 (Expr.mem_queries_iff.2 hoccurs) with hquery | hquery
      · cases hquery
        exact ⟨hwind, hlow⟩
      · cases List.mem_singleton.1 hquery
        exact ⟨hwave, hhigh⟩
    case reads => simp [shelter, Expr.occurs_iff, htenth, hread]
  refine ⟨htext, ?_⟩
  have hname : Text.IsWord "calm" := by decide
  have h := compileAlias_text hname hprintable
  rwa [htext] at h

end Condition

end FuzzyInference
