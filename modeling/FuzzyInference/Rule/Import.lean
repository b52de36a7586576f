import FuzzyInference.Rule.Basic

/-!
# Importing rule text

A block of rule text holds one statement or more. Blank lines and comments from
`#` to the end of the line are skipped. A line that starts with `IF` or `DEF`
starts a statement, and any other line continues the statement before it.

All aliases are compiled before any rule, so a rule may stand before an alias
that it uses. Every error is collected: lines without a statement to continue
come first, then aliases, then rules.

The steps are those of the engine's `import_rules`, one definition each.
-/

namespace FuzzyInference

/-- A line without outer blanks and comment, unless nothing is left of it. -/
def cleanLine? (line : String) : Option String :=
  match Text.trimmed line.toList with
  | [] => none
  | '#' :: _ => none
  | cs =>
    if cs.contains '#' then some (String.ofList (Text.dropBlankEnd (cs.takeWhile (· ≠ '#'))))
    else some (String.ofList cs)

/-- The kind of statement that a line starts. -/
def startedBy? (line : String) : Option StatementKind :=
  match Text.words line with
  | [] => none
  | w :: _ =>
    if isKeyword "def" w then some .alias
    else if isKeyword "if" w then some .rule
    else none

/-- Joins clean lines into statements. Lines before the first statement are given
    apart. -/
def statementsFrom (current : Option (StatementKind × String)) :
    List String → List String × List (StatementKind × String)
  | [] => ([], current.toList)
  | line :: rest =>
    match startedBy? line with
    | some kind =>
      let (unbound, later) := statementsFrom (some (kind, line)) rest
      (unbound, current.toList ++ later)
    | none =>
      match current with
      | some (kind, text) => statementsFrom (some (kind, text ++ " " ++ line)) rest
      | none =>
        let (unbound, later) := statementsFrom none rest
        (line :: unbound, later)

/-- The lines without a statement, and the statements, of a block of rule text. -/
def statements (lines : List String) : List String × List (StatementKind × String) :=
  statementsFrom none (lines.filterMap cleanLine?)

/-- The statements of one kind. -/
def ofKind (kind : StatementKind) (ss : List (StatementKind × String)) : List String :=
  ss.filterMap fun s => if s.1 = kind then some s.2 else none

/-- The statements of one kind with their positions, from one. -/
def numbered (kind : StatementKind) (ss : List (StatementKind × String)) : List (String × Nat) :=
  (ofKind kind ss).zipIdx 1

/-- What a block of rule text compiled into (the engine's `RuleImport`). -/
structure RuleImport (α : Type) where
  rules : List (Rule α)
  aliases : AliasTable α
  errors : List CompileError

variable {α : Type} [Scalar α]

/-- Compiles aliases in order, each with the ones before it. -/
def importAliases (table : AliasTable α) : List (String × Nat) → AliasTable α × List CompileError
  | [] => (table, [])
  | (line, n) :: rest =>
    match compileAlias table line with
    | .ok (name, e) => importAliases (table.insert name e) rest
    | .error fault =>
      let (table, errors) := importAliases table rest
      (table, .located fault .alias n line :: errors)

/-- Compiles rules in order. -/
def importRules (table : AliasTable α) : List (String × Nat) → List (Rule α) × List CompileError
  | [] => ([], [])
  | (line, n) :: rest =>
    let (rules, errors) := importRules table rest
    match Rule.compile table line with
    | .ok rule => (rule :: rules, errors)
    | .error fault => (rules, .located fault .rule n line :: errors)

/-- The error of a line that no statement stands before. -/
def unboundError (line : String) : CompileError := ⟨.unbound line, none, some line⟩

/-- Compiles a block of rule text (the engine's `import_rules`). -/
def RuleImport.ofLines (lines : List String) : RuleImport α :=
  let (unbound, ss) := statements lines
  let (table, aliasErrors) := importAliases .empty (numbered .alias ss)
  let (rules, ruleErrors) := importRules table (numbered .rule ss)
  ⟨rules, table, unbound.map unboundError ++ aliasErrors ++ ruleErrors⟩

end FuzzyInference
