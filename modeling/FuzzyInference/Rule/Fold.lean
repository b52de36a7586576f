import FuzzyInference.Rule.Expr
import FuzzyInference.Scalar.Numeral

/-!
# Folding a level

One level of a condition, between two parentheses or commas, is a list of items:
words, groups of compiled conditions, and finished conditions. A level is folded
into a single condition by passes in a fixed order:

1. words that name an alias become its condition;
2. a function word and the group behind it become a call;
3. reserved words and other items have to take turns;
4. `NOT` moves in front of the query that it negates;
5. `input IS membership` becomes a query;
6. `NOT` takes the item behind it;
7. connectives take their neighbours, strictly from left to right.

A pass that works in place keeps the items it has passed in reverse, so the
nearest ones are at hand. The passes are the loops of the engine's `fold_level`,
one definition each.
-/

namespace FuzzyInference

/-- An item of a level (the engine's `Token`). -/
inductive Item (α : Type) where
  | word (w : String)
  | group (es : List (Expr α))
  | done (e : Expr α)

namespace Item

variable {α : Type} [Scalar α]

/-- The text of an item (the engine's `Token.fmt`). -/
def text : Item α → String
  | .word w => w
  | .group es => Expr.groupText es
  | .done e => e.text

/-- Whether an item is a certain word, given in lower case (the engine's
    `Token.is_word`). -/
def isWord (item : Item α) (lowercase : String) : Bool :=
  match item with
  | .word w => w.toLower == lowercase
  | _ => false

/-- The words that are not names (the engine's `RESERVED`). -/
def reserved : List String :=
  ["is", "not", "then", "if", "def", ",", "and", "or", "xor", "sum", "product", "gamma"]

/-- Whether an item is a word that is not a name (the engine's
    `Token.is_reserved`). -/
def isReserved : Item α → Bool
  | .word w => reserved.contains w.toLower
  | _ => false

/-- The condition of a single item (the engine's `Token.into_expr`). -/
def toExpr : Item α → Except CompileFault (Expr α)
  | .done e => .ok e
  | .group [e] => .ok e
  | .group [] => .error .emptyParentheses
  | .group es => .error (.strayComma (Expr.groupText es))
  | .word w =>
    match Scalar.read? w with
    | some value => .ok (.constant value)
    | none => .error (.unrecognized w)

/-! ## Aliases and calls -/

/-- The first pass: an alias stands for its condition. -/
def expand (aliases : AliasTable α) (item : Item α) : Item α :=
  match item with
  | .word w =>
    match aliases.get? w with
    | some e => .group [e]
    | none => item
  | item => item

/-- The second pass: a function takes the group behind it. -/
def foldCalls : List (Item α) → Except CompileFault (List (Item α))
  | [] => .ok []
  | .word w :: rest =>
    match RuleFunction.ofKeyword? w with
    | none => do return .word w :: (← foldCalls rest)
    | some f =>
      match rest with
      | .group args :: rest => do return .done (.call f args) :: (← foldCalls rest)
      | _ => .error (.callWithoutArguments f.keyword)
  | item :: rest => do return item :: (← foldCalls rest)

/-! ## Grammar -/

/-- The third pass: reserved words and other items take turns, from behind a
    reserved `IF`, and the last one is not reserved (the engine's `check_grammar`).
    Only `IS NOT` may stand together. -/
def checkTurns (previous : Option (Item α)) (lastReserved : Bool) :
    List (Item α) → Except CompileFault Unit
  | [] =>
    match previous with
    | none => .error .emptyCondition
    | some last => if lastReserved then .error (.badEnd last.text) else .ok ()
  | item :: rest =>
    if item.isReserved = lastReserved then
      match previous with
      | none => .error (.badPair "IF" item.text)
      | some p =>
        if p.isWord "is" && item.isWord "not" then checkTurns (some item) lastReserved rest
        else .error (.badPair p.text item.text)
    else checkTurns (some item) item.isReserved rest

/-- Puts `NOT` behind two items back, or at the start. -/
def putBack (item : Item α) : List (Item α) → List (Item α)
  | a :: b :: rest => a :: b :: item :: rest
  | passed => passed ++ [item]

/-- The fourth pass: `x IS NOT low` becomes `NOT x IS low`. -/
def hoistNots (passed : List (Item α)) : List (Item α) → List (Item α)
  | [] => passed.reverse
  | item :: rest =>
    if item.isWord "not" then hoistNots (putBack item passed) rest
    else hoistNots (item :: passed) rest

omit [Scalar α] in
theorem length_putBack (item : Item α) (passed : List (Item α)) :
    (putBack item passed).length = passed.length + 1 := by
  unfold putBack
  split <;> simp

omit [Scalar α] in

/-! ## Queries and operators -/

/-- The fifth pass: queries, and the list of them in the order they were folded (the
    engine's `fold_queries`). -/
def foldQueries (passed : List (Item α)) :
    List (Item α) → Except CompileFault (List (Item α) × List (String × String))
  | [] => .ok (passed.reverse, [])
  | item :: rest =>
    if item.isWord "is" then
      match passed, rest with
      | .word input :: passed, .word membership :: rest => do
        let (items, queries) ← foldQueries (.done (.query input membership) :: passed) rest
        return (items, (input, membership) :: queries)
      | _, rest => .error (.isMalformed (rest.headD item).text)
    else foldQueries (item :: passed) rest

/-- The sixth pass: `NOT` and the item behind it. -/
def foldNots : List (Item α) → Except CompileFault (List (Item α))
  | [] => .ok []
  | item :: rest =>
    if item.isWord "not" then
      match rest with
      | [] => .error .notWithoutOperand
      | operand :: rest => do
        let e ← operand.toExpr
        return .done (.negation e) :: (← foldNots rest)
    else do return item :: (← foldNots rest)

/-- The connective an item is the word for. -/
def connective? : Item α → Option LogicOp
  | .word w => LogicOp.ofKeyword? w
  | _ => none

/-- The seventh pass: connectives and their neighbours. -/
def foldLogic (passed : List (Item α)) : List (Item α) → Except CompileFault (List (Item α))
  | [] => .ok passed.reverse
  | item :: rest =>
    match item.connective? with
    | none => foldLogic (item :: passed) rest
    | some op =>
      match passed, rest with
      | left :: passed, right :: rest => do
        let r ← right.toExpr
        let l ← left.toExpr
        foldLogic (.done (.logic op l r) :: passed) rest
      | _, _ => .error (.operandMissing op.keyword)

/-- The only item of a folded level. -/
def single : List (Item α) → Except CompileFault (Expr α)
  | [] => .error .emptyCondition
  | [item] => item.toExpr
  | _ :: extra :: _ => .error (.leftOver extra.text)

/-- Folds a level into its condition, with the queries that stand in the level
    itself (the engine's `fold_level`). -/
def foldLevel (aliases : AliasTable α) (items : List (Item α)) :
    Except CompileFault (Expr α × List (String × String)) := do
  let items ← foldCalls (items.map (expand aliases))
  checkTurns none true items
  let (items, queries) ← foldQueries [] (hoistNots [] items)
  let items ← foldLogic [] (← foldNots items)
  return (← single items, queries)

end Item

end FuzzyInference
