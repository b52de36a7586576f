import FuzzyInference.Rule.Bracketed
import FuzzyInference.Rule.Fold
import FuzzyInference.Implication.Basic

/-!
# Rules

A condition is compiled from its innermost groups outwards: the parts of a group become
conditions, and then the level around it is folded. The two statements are
`IF condition THEN result IS membership` and `DEF name IS condition`. Beside its condition, a rule
lists the queries that stand in its own text, inner groups first.

A rule's condition is evaluated for a record, and the rule's conclusion is the result's membership
clipped at that truth.
-/

namespace FuzzyInference

/-! ## Compiling statements -/

variable {α : Type} [Scalar α]

/-- A condition with the queries of its text (within the engine's
    `CompiledRule`). -/
abbrev Compiled (α : Type) : Type := Expr α × List (String × String)

namespace Bracketed

mutual

/-- Compiles one item: a word stays, the parts of a group are compiled (within the
    engine's `fold_groups`). -/
def compileItem (aliases : AliasTable α) :
    Bracketed → Except CompileFault (Item α × List (String × String))
  | .word w => .ok (.word w, [])
  | .group [[]] => .ok (.group [], [])
  | .group parts => do
    let (es, queries) ← compileParts aliases parts
    return (.group es, queries)

/-- Compiles the items of a level (within the engine's `fold_groups`). -/
def compileItems (aliases : AliasTable α) :
    List Bracketed → Except CompileFault (List (Item α) × List (String × String))
  | [] => .ok ([], [])
  | b :: bs => do
    let (item, q₁) ← compileItem aliases b
    let (items, q₂) ← compileItems aliases bs
    return (item :: items, q₁ ++ q₂)

/-- Compiles the parts of a group, none of which may be empty (within the engine's
    `fold_groups`). -/
def compileParts (aliases : AliasTable α) :
    List (List Bracketed) → Except CompileFault (List (Expr α) × List (String × String))
  | [] => .ok ([], [])
  | part :: parts => do
    if part.isEmpty then throw .emptyArgument
    let (items, inner) ← compileItems aliases part
    let (e, own) ← Item.foldLevel aliases items
    let (es, queries) ← compileParts aliases parts
    return (e :: es, inner ++ own ++ queries)

end

/-- Compiles a whole condition (the engine's `fold_groups`). -/
def Level.compile (aliases : AliasTable α) (level : Level) : Except CompileFault (Compiled α) := do
  let (items, inner) ← compileItems aliases level.items
  if level.stray then throw .unmatchedClosing
  let (e, own) ← Item.foldLevel aliases items
  return (e, inner ++ own)

end Bracketed

/-- The condition that words spell (the engine's `parse_tokens`). -/
def compileCondition (aliases : AliasTable α) (ws : List String) :
    Except CompileFault (Compiled α) := do
  (← Bracketed.ofWords ws).compile aliases

/-- Whether a word is a certain one, given in lower case (the engine's
    `Token.is_word`). -/
def isKeyword (lowercase w : String) : Bool := w.toLower == lowercase

/-- A compiled rule (the engine's `Rule`). -/
structure Rule (α : Type) where
  source : String
  condition : Expr α
  /-- The name after `THEN`. -/
  result : String
  membership : String
  /-- The membership each input is asked for in the rule's own text. -/
  queries : OrderedMap String

/-- The result and the membership of a conclusion (within the engine's
    `compile_rule`). -/
def readConclusion : List String → Except CompileFault (String × String)
  | [result, is, membership] =>
    if isKeyword "is" is then .ok (result, membership) else .error .thenMalformed
  | _ => .error .thenMalformed

/-- Compiles an `IF` statement (the engine's `Rule.compile`). -/
def Rule.compile (aliases : AliasTable α) (line : String) : Except CompileFault (Rule α) :=
  match Text.statementWords line with
  | [] => .error .ifMissing
  | first :: ws =>
    if !isKeyword "if" first then .error .ifMissing
    else match ws.dropWhile fun w => !isKeyword "then" w with
      | [] => .error .thenMissing
      | _ :: conclusion => do
        let (result, membership) ← readConclusion conclusion
        let (condition, queries) ←
          compileCondition aliases (ws.takeWhile fun w => !isKeyword "then" w)
        return ⟨line, condition, result, membership, .ofList queries⟩

/-- Compiles a `DEF` statement into a name and the condition it stands for (the
    engine's `compile_alias`). -/
def compileAlias (aliases : AliasTable α) (line : String) : Except CompileFault (String × Expr α) :=
  match Text.statementWords line with
  | [] => .error .defMissing
  | first :: ws =>
    if !isKeyword "def" first then .error .defMissing
    else match ws with
      | name :: is :: w :: ws =>
        if isKeyword "is" is then do
          let (e, _) ← compileCondition aliases (w :: ws)
          return (name, e)
        else .error .defMalformed
      | _ => .error .defMalformed

/-! ## Evaluating rules -/

namespace Rule

/-- The inputs queried in the rule's own text, by first use (the engine's
    `Rule.found_inputs`). Inputs reached through an alias only are not among
    them. -/
def foundInputs (r : Rule α) : List String := r.queries.keys

/-- The membership that the rule asks an input for (the engine's
    `Rule.membership_for_input`). -/
def membershipFor? (r : Rule α) (input : String) : Option String := r.queries.get? input

/-- The truth of the query that the rule makes about an input, for a single value
    (the engine's `Rule.truth_for_input`). -/
def truthForInput (r : Rule α) (inputs : VariableStore α) (input : String) (value : Value α) :
    Result α (Value α) :=
  match r.membershipFor? input, inputs.get? input with
  | some membership, some v => v.truth value membership
  | _, _ => .error (.unknownInput input)

/-- The truth that the result's membership is clipped at (the engine's
    `Rule.clip`). -/
def clip (r : Rule α) (inputs : VariableStore α) (record : Record α) : Result α (Value α) :=
  r.condition.evaluate inputs record

/-- What a rule concludes about a result for a record (the engine's
    `Rule.evaluate`). -/
def evaluate (r : Rule α) (inputs : VariableStore α) (result : Variable α) (record : Record α) :
    Result α (Implication α) := do
  result.implication r.membership (← r.clip inputs record)

/-- Whether two rules agree in text, condition, conclusion and queries (the engine's
    `Rule.eq`). -/
def same (r s : Rule α) : Bool :=
  r.source == s.source && r.condition.same s.condition && r.result == s.result &&
    r.membership == s.membership && r.queries.agrees (· == ·) s.queries

end Rule

end FuzzyInference
