/-!
# Compile errors

Why a line of rule text, or an arithmetic expression over results, is refused.
The causes are data; the wording is in one function.
-/

namespace FuzzyInference

/-- Why a rule, an alias or an expression does not compile (the engine's
    `CompileError.message`). Texts that the wording quotes are kept as they are
    quoted. -/
inductive CompileFault where
  -- statements
  | ifMissing
  | thenMissing
  | thenMalformed
  | defMissing
  | defMalformed
  | unbound (line : String)
  -- parentheses
  | moreOpening
  | moreClosing
  | unmatchedOpening
  | unmatchedClosing
  | emptyArgument
  | emptyParentheses
  | strayComma (group : String)
  -- conditions
  | callWithoutArguments (keyword : String)
  | badPair (first second : String)
  | badEnd (last : String)
  | emptyCondition
  | isMalformed (near : String)
  | notWithoutOperand
  | operandMissing (keyword : String)
  | unrecognized (word : String)
  | leftOver (term : String)
  -- arithmetic expressions
  | badCharacter (position : Nat) (quoted : String)
  | unexpectedToken (text : String) (position : Nat)
  | unexpectedEnd
  | closingExpectedAtEnd
  | closingExpected (text : String) (position : Nat)
  | unknownFunction (name : String)
  | wrongArgumentCount (name expected : String) (given : Nat)
  | functionNotCalled (name : String)
  deriving Repr, DecidableEq

/-- The wording of a compile fault. -/
def CompileFault.message : CompileFault → String
  | .ifMissing => "\"IF\" must begin rule"
  | .thenMissing => "\"THEN\" keyword missing from rule"
  | .thenMalformed => "Malformed THEN clause"
  | .defMissing => "\"DEF\" must begin alias"
  | .defMalformed =>
    "Malformed \"DEF\" statement; format should be \"DEF <label> [is|=] <statements>\""
  | .unbound line => "Unbound statement: " ++ line
  | .moreOpening => "Paren mismatch: more \"(\" than \")\""
  | .moreClosing => "Paren mismatch: more \")\" than \"(\""
  | .unmatchedOpening => "Paren mismatch; \"(\" without matching \")\""
  | .unmatchedClosing => "Paren mismatch; \")\" without matching \"(\""
  | .emptyArgument => "Empty argument in parenthesized list"
  | .emptyParentheses => "Empty parentheses"
  | .strayComma group => "Unexpected \",\" outside of a function call: " ++ group
  | .callWithoutArguments keyword => keyword ++ " must be followed by a parenthesized argument list"
  | .badPair first second => "Bad Grammar: ?" ++ first ++ " " ++ second ++ "?"
  | .badEnd last => "Bad Grammar: ?" ++ last ++ "?"
  | .emptyCondition => "Bad Grammar: empty expression"
  | .isMalformed near => "Malformed IS statement near \"" ++ near ++ "\""
  | .notWithoutOperand => "NOT is missing its operand"
  | .operandMissing keyword => keyword ++ " is missing an operand"
  | .unrecognized word => "Unrecognized term \"" ++ word ++ "\""
  | .leftOver term => "Unexpected \"" ++ term ++ "\""
  | .badCharacter position quoted =>
    "Unexpected character at position " ++ toString position ++ ": " ++ quoted
  | .unexpectedToken text position =>
    "Unexpected \"" ++ text ++ "\" at position " ++ toString position
  | .unexpectedEnd => "Unexpected end of expression"
  | .closingExpectedAtEnd => "Expected \")\" at end of expression"
  | .closingExpected text position =>
    "Expected \")\", found \"" ++ text ++ "\" at position " ++ toString position
  | .unknownFunction name => "Unknown function \"" ++ name ++ "\""
  | .wrongArgumentCount name expected given =>
    name ++ "() takes " ++ expected ++ " arguments (" ++ toString given ++ " given)"
  | .functionNotCalled name => "\"" ++ name ++ "\" is a function and must be called"

/-- The two kinds of statement in rule text (the engine's `StatementKind`). -/
inductive StatementKind where
  | alias
  | rule
  deriving Repr, DecidableEq

/-- A rule or an alias that does not compile, with its place in an import if it has
    one: the kind of statement and its position, from one, among the statements of
    that kind (the engine's `CompileError`). -/
structure CompileError where
  fault : CompileFault
  location : Option (StatementKind × Nat)
  sourceLine : Option String
  deriving Repr, DecidableEq

namespace CompileError

/-- An error outside of any import (the engine's `CompileError.new`). -/
def ofFault (fault : CompileFault) : CompileError := ⟨fault, none, none⟩

/-- The wording, without the place. -/
def text (e : CompileError) : String := e.fault.message

/-- The wording with the place in front (the engine's `CompileError.fmt`). -/
def message (e : CompileError) : String :=
  match e.location with
  | some (.alias, n) => "DEF " ++ toString n ++ ": " ++ e.text
  | some (.rule, n) => "Rule " ++ toString n ++ ": " ++ e.text
  | none => e.text

/-- Places an error at a statement of an import (the engine's
    `CompileError.located`). -/
def located (fault : CompileFault) (kind : StatementKind) (position : Nat) (line : String) :
    CompileError :=
  ⟨fault, some (kind, position), some line⟩

/-- The wording of several errors, one a line (the engine's `CompileErrors.fmt`). -/
def messages (errors : List CompileError) : String := "\n".intercalate (errors.map message)

end CompileError

end FuzzyInference
