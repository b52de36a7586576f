import FuzzyInference.Document.Curve
import FuzzyInference.RuleSet

/-!
# Documents of conditions, rules and rule sets

A condition is a union over its nodes, nested as deep as the condition is. A rule
keeps its compiled form. A rule set keeps only its text: reading one compiles the
text again, and a text with errors is kept with them.
-/

namespace FuzzyInference

variable {α : Type} [Scalar α]

/-- The function of a keyword in capitals. -/
def RuleFunction.ofName? (s : String) : Option RuleFunction :=
  [RuleFunction.sum, .product, .gamma].find? fun f => decide (f.keyword = s)

/-- The connective of a keyword in capitals. -/
def LogicOp.ofName? (s : String) : Option LogicOp :=
  [LogicOp.and, .or, .xor].find? fun op => decide (op.keyword = s)

namespace Expr

/-- The nodes of conditions, by their tags. -/
def cases : List String := ["constant", "is", "not", "logic", "call"]

mutual

/-- The document of a condition. -/
def toDocument : Expr α → Json α
  | .constant value => Json.tagged "node" "constant" [("value", .ofScalar value)]
  | .query input membership =>
    Json.tagged "node" "is" [("input", .string input), ("membership", .string membership)]
  | .negation e => Json.tagged "node" "not" [("operand", toDocument e)]
  | .logic op l r =>
    Json.tagged "node" "logic"
      [("op", .string op.keyword), ("lhs", toDocument l), ("rhs", toDocument r)]
  | .call f args =>
    Json.tagged "node" "call" [("function", .string f.keyword), ("args", .array (toDocuments args))]

/-- The documents of several conditions. -/
def toDocuments : List (Expr α) → List (Json α)
  | [] => []
  | e :: es => toDocument e :: toDocuments es

end

/-- The condition of a node with the given fields, whose parts are read by
    `part?`. -/
def ofCase? (part? : Json α → Option (Expr α)) (c : String) (j : Json α) : Option (Expr α) :=
  match c with
  | "constant" =>
    match j.fields? ["value"] with
    | some [value] => do return .constant (← Json.required Json.toScalar? value)
    | _ => none
  | "is" =>
    match j.fields? ["input", "membership"] with
    | some [input, membership] => do
      return .query (← Json.required Json.toString? input)
        (← Json.required Json.toString? membership)
    | _ => none
  | "not" =>
    match j.fields? ["operand"] with
    | some [operand] => do return .negation (← Json.required part? operand)
    | _ => none
  | "logic" =>
    match j.fields? ["op", "lhs", "rhs"] with
    | some [op, l, r] => do
      let name ← Json.required (Json.choice? true) op
      return .logic (← LogicOp.ofName? name) (← Json.required part? l) (← Json.required part? r)
    | _ => none
  | "call" =>
    match j.fields? ["function", "args"] with
    | some [f, args] => do
      let name ← Json.required (Json.choice? true) f
      return .call (← RuleFunction.ofName? name) (← Json.required (Json.toList? part?) args)
    | _ => none
  | _ => none

/-- Reads a condition whose document is at most so many levels deep. -/
def ofDocumentWithin? (place : Json.Place) : Nat → Json α → Option (Expr α)
  | 0, _ => none
  | depth + 1, j => do
    let (c, fields) ← j.tagged? place "node" cases
    ofCase? (ofDocumentWithin? .inside depth) c fields

/-- Reads a condition. -/
def ofDocument? (j : Json α) : Option (Expr α) := ofDocumentWithin? .outside j.depth j

end Expr

namespace Rule

/-- The document of a rule, with its condition as it was compiled. -/
def toDocument (r : Rule α) : Json α :=
  .object [("source", .string r.source), ("condition", r.condition.toDocument),
    ("result", .string r.result), ("result_membership", .string r.membership),
    ("queries", .ofMap .string r.queries)]

/-- Reads a rule; its text is not compiled again. -/
def ofDocument? (j : Json α) : Option (Rule α) :=
  match j.fields? ["source", "condition", "result", "result_membership", "queries"] with
  | some [source, condition, result, membership, queries] => do
    return ⟨← Json.required Json.toString? source, ← Json.required Expr.ofDocument? condition,
      ← Json.required Json.toString? result, ← Json.required Json.toString? membership,
      ← Json.required (Json.toMap? Json.toString?) queries⟩
  | _ => none

end Rule

namespace RuleSet

/-- The document of a set: its variables and its rule text (the engine's
    `SetDocument.from`). -/
def toDocument (s : RuleSet α) : Json α :=
  .object [("inputs", s.inputs.toDocument), ("result", s.result.toDocument),
    ("rules", .string s.text)]

/-- Reads a set, whose rule text is compiled (the engine's `FuzzyLogicSet.from`). -/
def ofDocument? (j : Json α) : Option (RuleSet α) :=
  match j.fields? ["inputs", "result", "rules"] with
  | some [inputs, result, rules] => do
    let inputs ← Json.required VariableStore.ofDocument? inputs
    let result ← Json.required Variable.ofDocument? result
    let text ← Json.withDefault "" Json.toString? rules
    return ((make inputs result).importText text).1
  | _ => none

end RuleSet

end FuzzyInference
