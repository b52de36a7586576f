import FuzzyInference.Formula.Function

/-!
# Formulas

The arithmetic expressions that combine results, as trees. A printed formula has
parentheses around every operation of two operands, and signs stand directly in
front of their operand.

Results:

* `mentions_binary`: an operation mentions what its operands mention.
-/

namespace FuzzyInference

/-- Signs in front of an operand (the engine's `UnaryOp`). -/
inductive Sign where
  | minus
  | plus
  deriving Repr, DecidableEq

/-- Operations of two operands (the engine's `BinaryOp`). -/
inductive Operator where
  | add
  | subtract
  | multiply
  | divide
  | floorDivide
  | remainder
  | power
  deriving Repr, DecidableEq

/-- The symbol of a sign (within the engine's `Node.fmt`). -/
def Sign.symbol : Sign → String
  | .minus => "-"
  | .plus => "+"

/-- The symbol of an operation (the engine's `BinaryOp.symbol`). -/
def Operator.symbol : Operator → String
  | .add => "+"
  | .subtract => "-"
  | .multiply => "*"
  | .divide => "/"
  | .floorDivide => "//"
  | .remainder => "%"
  | .power => "**"

/-- An arithmetic expression (the engine's `Node`). -/
inductive Formula (α : Type) where
  | number (value : α)
  | name (name : String)
  | sign (sign : Sign) (operand : Formula α)
  | binary (op : Operator) (left right : Formula α)
  | call (function : Function) (args : List (Formula α))

namespace Formula

variable {α : Type}

mutual

/-- Every mention of a name, from left to right (within the engine's
    `Node.names`). -/
def mentions : Formula α → List String
  | .number _ => []
  | .name n => [n]
  | .sign _ f => mentions f
  | .binary _ l r => mentions l ++ mentions r
  | .call _ args => mentionsOf args

/-- Every mention of a name in several formulas, from left to right (within the
    engine's `Node.names`). -/
def mentionsOf : List (Formula α) → List String
  | [] => []
  | f :: fs => mentions f ++ mentionsOf fs

end

/-- A list without repetitions, each element where it stands first (within the
    engine's `Node.names`). -/
def firsts (seen : List String) : List String → List String
  | [] => []
  | n :: ns => if n ∈ seen then firsts seen ns else n :: firsts (n :: seen) ns

/-- The names that a formula mentions, each once, by first mention (the engine's
    `Node.names`). -/
def names (f : Formula α) : List String := firsts [] f.mentions

theorem mentions_binary (op : Operator) (l r : Formula α) :
    (binary op l r).mentions = l.mentions ++ r.mentions := by
  simp [mentions]

section

variable [Scalar α]

mutual

/-- The printed form (the engine's `Node.fmt`). -/
def text : Formula α → String
  | .number value => Scalar.text value
  | .name n => n
  | .sign s f => s.symbol ++ text f
  | .binary op l r => "(" ++ text l ++ " " ++ op.symbol ++ " " ++ text r ++ ")"
  | .call f args => f.name ++ "(" ++ ", ".intercalate (textsOf args) ++ ")"

/-- The printed forms of several formulas (within the engine's `Node.fmt`). -/
def textsOf : List (Formula α) → List String
  | [] => []
  | f :: fs => text f :: textsOf fs

end

mutual

/-- Whether two formulas are the same tree with equal numbers (the engine's
    `Node.eq`). -/
def same : Formula α → Formula α → Bool
  | .number a, .number b => a == b
  | .name a, .name b => a == b
  | .sign s f, .sign s' f' => s == s' && same f f'
  | .binary op l r, .binary op' l' r' => op == op' && same l l' && same r r'
  | .call f args, .call f' args' => f == f' && sameAll args args'
  | _, _ => false

/-- Whether two lists of formulas are the same, one by one (within the engine's
    `Node.eq`). -/
def sameAll : List (Formula α) → List (Formula α) → Bool
  | [], [] => true
  | f :: fs, f' :: fs' => same f f' && sameAll fs fs'
  | _, _ => false

end

end

end Formula

end FuzzyInference
