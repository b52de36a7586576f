import FuzzyInference.Logic.Connective
import FuzzyInference.Record
import FuzzyInference.Variable.Store
import FuzzyInference.Text.LowerCase

/-!
# Conditions

The condition of a rule as a tree: constants, queries `input IS membership`, complements,
connectives and function calls.

Aliases are names for conditions, defined by `DEF` statements and used in place of queries. The
letter case of a name does not matter.

Results:

* `queries_logic`: how a node's queries come from its parts.
* `AliasTable.get?_insert`: what a name stands for after a definition.
-/

namespace FuzzyInference

/-- The functions of the rule language (the engine's `Function`). -/
inductive RuleFunction where
  | sum
  | product
  | gamma
  deriving Repr, DecidableEq

namespace RuleFunction

/-- The word for a function (the engine's `Function.keyword`). -/
def keyword : RuleFunction → String
  | .sum => "SUM"
  | .product => "PRODUCT"
  | .gamma => "GAMMA"

/-- The function a word names, in any letter case (the engine's
    `Function.from_keyword`). -/
def ofKeyword? (word : String) : Option RuleFunction :=
  match word.toLower with
  | "sum" => some .sum
  | "product" => some .product
  | "gamma" => some .gamma
  | _ => none

/-- Applies a function to truth values; the first operand of `GAMMA` is its gamma
    (the engine's `Function.call`). -/
def apply {α : Type} [Scalar α] (f : RuleFunction) (vs : List (Value α)) : Result α (Value α) :=
  match f with
  | .sum => AggregateOp.sum.apply vs
  | .product => AggregateOp.product.apply vs
  | .gamma =>
    match vs with
    | [] => .error (.argument .gammaMissing)
    | weight :: operands => gammaMean weight operands

end RuleFunction

/-- The condition of a rule (the engine's `Expr`). -/
inductive Expr (α : Type) where
  | constant (value : α)
  /-- `input IS membership` -/
  | query (input membership : String)
  | negation (operand : Expr α)
  | logic (op : LogicOp) (left right : Expr α)
  | call (function : RuleFunction) (args : List (Expr α))

namespace Expr

variable {α : Type}

mutual

/-- The queries of a condition, from left to right (the engine's `Expr.queries`). -/
def queries : Expr α → List (String × String)
  | .constant _ => []
  | .query input membership => [(input, membership)]
  | .negation e => queries e
  | .logic _ l r => queries l ++ queries r
  | .call _ args => queriesOf args

/-- The queries of several conditions, from left to right (within the engine's
    `Expr.queries`). -/
def queriesOf : List (Expr α) → List (String × String)
  | [] => []
  | e :: es => queries e ++ queriesOf es

end

theorem queries_logic (op : LogicOp) (l r : Expr α) :
    (logic op l r).queries = l.queries ++ r.queries := by
  simp [queries]

section

variable [Scalar α]

mutual

/-- The text of a condition (the engine's `Expr.fmt`). -/
def text : Expr α → String
  | .constant value => Scalar.text value
  | .query input membership => input ++ " IS " ++ membership
  | .negation e => "NOT (" ++ text e ++ ")"
  | .logic op l r => "(" ++ text l ++ " " ++ op.keyword ++ " " ++ text r ++ ")"
  | .call f args => f.keyword ++ "(" ++ ", ".intercalate (textsOf args) ++ ")"

/-- The texts of several conditions (within the engine's `Expr.fmt`). -/
def textsOf : List (Expr α) → List String
  | [] => []
  | e :: es => text e :: textsOf es

end

/-- The text of conditions between parentheses (within the engine's `Token.fmt`). -/
def groupText (es : List (Expr α)) : String := "(" ++ ", ".intercalate (textsOf es) ++ ")"

/-- The truth of one query about a record (within the engine's `Expr.evaluate`). -/
def queryTruth (inputs : VariableStore α) (record : Record α) (input membership : String) :
    Result α (Value α) :=
  match inputs.get? input with
  | none => .error (.unknownInput input)
  | some v => do v.truth (← record.require input) membership

mutual

/-- The truth of a condition for a record (the engine's `Expr.evaluate`). -/
def evaluate (inputs : VariableStore α) (record : Record α) : Expr α → Result α (Value α)
  | .constant value => .ok (.number value)
  | .query input membership => queryTruth inputs record input membership
  | .negation e => do return negate (← evaluate inputs record e)
  | .logic op l r => do
    let u ← evaluate inputs record l
    let v ← evaluate inputs record r
    return op.apply u v
  | .call f args => do f.apply (← evaluateAll inputs record args)

/-- The truths of several conditions, up to the first that has none (within the
    engine's `Expr.evaluate`). -/
def evaluateAll (inputs : VariableStore α) (record : Record α) :
    List (Expr α) → Result α (List (Value α))
  | [] => .ok []
  | e :: es => do
    let v ← evaluate inputs record e
    let vs ← evaluateAll inputs record es
    return v :: vs

end

mutual

/-- Whether two conditions are the same tree with equal constants (the engine's
    `Expr.eq`). -/
def same : Expr α → Expr α → Bool
  | .constant a, .constant b => a == b
  | .query i m, .query i' m' => i == i' && m == m'
  | .negation e, .negation e' => same e e'
  | .logic op l r, .logic op' l' r' => op == op' && same l l' && same r r'
  | .call f args, .call f' args' => f == f' && sameAll args args'
  | _, _ => false

/-- Whether two lists of conditions are the same, one by one (within the engine's
    `Expr.eq`). -/
def sameAll : List (Expr α) → List (Expr α) → Bool
  | [], [] => true
  | e :: es, e' :: es' => same e e' && sameAll es es'
  | _, _ => false

end

end

end Expr

/-! ## Aliases -/

/-- Conditions by name, keyed by the lower case of the name (the engine's
    `AliasTable`). -/
structure AliasTable (α : Type) where
  entries : OrderedMap (Expr α)

namespace AliasTable

variable {α : Type}

/-- The table with no aliases (the engine's `AliasTable.new`). -/
def empty : AliasTable α := ⟨.empty⟩

/-- Defines an alias, in place of one of its name (the engine's
    `AliasTable.insert`). -/
def insert (t : AliasTable α) (name : String) (e : Expr α) : AliasTable α :=
  ⟨t.entries.insert (Text.lower name) e⟩

/-- The condition that a name stands for (the engine's `AliasTable.get`). -/
def get? (t : AliasTable α) (name : String) : Option (Expr α) := t.entries.get? (Text.lower name)

/-- The names of the aliases in lower case, in order of definition (within the
    engine's `AliasTable.iter`). -/
def names (t : AliasTable α) : List String := t.entries.keys

/-- The number of aliases (the engine's `AliasTable.len`). -/
def size (t : AliasTable α) : Nat := t.entries.size

/-- Whether there are no aliases (the engine's `AliasTable.is_empty`). -/
def isEmpty (t : AliasTable α) : Bool := t.entries.isEmpty

theorem get?_insert (t : AliasTable α) (name other : String) (e : Expr α) :
    (t.insert name e).get? other =
      if Text.lower name = Text.lower other then some e else t.get? other :=
  OrderedMap.get?_insert _ _ _ _

end AliasTable

end FuzzyInference
